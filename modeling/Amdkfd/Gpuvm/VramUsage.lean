import Amdkfd.Gpuvm.MemLimitAccount

/-!
# VRAM usage of a process

`pdd->vram_usage` counts the VRAM that a process has on a device. `kfd_ioctl_alloc_memory_of_gpu`
and `criu_restore_memory_of_gpu` add to it by the flags and the size they were given,
`kfd_ioctl_free_memory_of_gpu` takes off what the free says, which goes by the preferred domain of
the BO and the type of the device.

The accounts of the memory limits are those at the time of each call: other processes change them
in between. The counter is a whole number; the sizes it adds up are those of memory that exists.
-/

namespace Amdkfd.VramUsage

open Lib MemLimit List

/-! ## Model -/

/-- `struct kfd_process_device`: the handles with their BOs, and the counter. `leaked` are the BOs
that have no handle and whose free failed. -/
structure Pdd where
  dev : Dev
  allocIdr : List (Nat × Bo)
  leaked : List Bo
  vramUsage : Int
  deriving DecidableEq

def init (dev : Dev) : Pdd := { dev := dev, allocIdr := [], leaked := [], vramUsage := 0 }

/-- What the calls of an allocation find and return. `svmRange` and `svmUserRange` say that the
addresses are taken by SVM, `processSlice` is `kfd_doorbell_process_slice`, `doorbells` the address
that `kfd_get_process_doorbells` returns and `rmmioRemap` `rmmio_remap.bus_addr`. `accounts` and the
fields after it are for the allocation of the BO, `idrAlloc` says that there is memory for the
handle, and `reserve` is what the free of a BO without a handle gets for its reservation. -/
structure Env where
  svmRange : Bool
  svmUserRange : Bool
  pddFound : Bool
  largeBar : Bool
  bind : Option Errno
  processSlice : Nat
  doorbells : Nat
  rmmioRemap : Nat
  accounts : State
  xcp : Option Nat
  limits : Limits
  sgTable : Bool
  kzalloc : Bool
  gemObjectCreate : Option Errno
  vmaNodeAllow : Option Errno
  gemHandleCreate : Option Errno
  prepare : Option Errno
  idrAlloc : Bool
  reserve : Option Errno

/-- `struct kfd_ioctl_alloc_memory_of_gpu_args`. `isPublic` is
`KFD_IOC_ALLOC_MEM_FLAGS_PUBLIC`. -/
structure AllocArgs where
  vaAddr : Nat
  size : Nat
  mmapOffset : Nat
  flags : Flags
  isPublic : Bool

/-- `struct kfd_criu_bo_bucket` with `struct kfd_criu_bo_priv_data`. -/
structure Bucket where
  size : Nat
  flags : Flags
  userAddr : Nat
  idrHandle : Nat

/-- The offset of a doorbell or of MMIO registers, with their checks, or else that of the caller. -/
def deviceOffset (flags : Flags) (size offset : Nat) (env : Env) : Except Errno Nat :=
  if flags.doorbell then
    if size ≠ env.processSlice then .error .einval
    else if env.doorbells = 0 then .error .enomem
    else .ok env.doorbells
  else if flags.mmioRemap then
    if size ≠ pageSize then .error .einval
    else if env.rmmioRemap = 0 then .error .enomem
    else .ok env.rmmioRemap
  else .ok offset

/-- The arguments of `amdgpu_amdkfd_gpuvm_alloc_memory_of_gpu`. -/
def memArgs (dev : Dev) (size : Nat) (flags : Flags) (offset : Nat) (env : Env) : Args :=
  { dev := dev
    size := size
    flags := flags
    xcp := env.xcp
    offset := some offset
    limits := env.limits
    sgTable := env.sgTable
    kzalloc := env.kzalloc
    gemObjectCreate := env.gemObjectCreate
    vmaNodeAllow := env.vmaNodeAllow
    gemHandleCreate := env.gemHandleCreate
    prepare := env.prepare }

def allocBo (accounts : State) (a : Args) : Except Errno Bo :=
  match place a, (allocMemoryOfGpu accounts a).2 with
  | .error e, _ => .error e
  | .ok _, .error e => .error e
  | .ok (domain, xcp), .ok id => .ok (a.bo id domain xcp)

/-- `amdgpu_amdkfd_gpuvm_free_memory_of_gpu` of a BO that has got no handle. -/
def freeUnwound (p : Pdd) (b : Bo) (env : Env) : Pdd :=
  match (freeMemoryOfGpu env.accounts b false env.reserve).2 with
  | .ok _ => p
  | .error _ => { p with leaked := b :: p.leaked }

/-- The lowest id that is not taken, for `idr_alloc` from 0. -/
def firstFreeId (ids : List Nat) : Nat :=
  ((range (ids.length + 1)).find? fun id => id ∉ ids).getD ids.length

def idrAllocAt (p : Pdd) (id : Nat) (ok : Bool) : Bool :=
  ok && id < 2 ^ 31 && id ∉ p.allocIdr.map Prod.fst

/-- The checks of `kfd_ioctl_alloc_memory_of_gpu` before its allocation, and the offset. -/
def checkAlloc (args : AllocArgs) (env : Env) : Except Errno Nat :=
  if args.size = 0 then .error .einval
  else if ¬ (args.vaAddr = 0 ∧ args.flags.vram) ∧ env.svmRange then .error .eaddrinuse
  else if args.flags.userptr ∧ env.svmUserRange then .error .eaddrinuse
  else if ¬ env.pddFound then .error .einval
  else if args.isPublic ∧ args.flags.vram ∧ ¬ env.largeBar then .error .einval
  else
    match env.bind with
    | some e => .error e
    | none => deviceOffset args.flags args.size args.mmapOffset env

def ioctlBo (p : Pdd) (args : AllocArgs) (env : Env) : Except Errno Bo :=
  match checkAlloc args env with
  | .error e => .error e
  | .ok offset => allocBo env.accounts (memArgs p.dev args.size args.flags offset env)

/-- `kfd_ioctl_alloc_memory_of_gpu`: the device data, and the handle. -/
def kfdIoctlAlloc (p : Pdd) (args : AllocArgs) (env : Env) : Pdd × Except Errno Nat :=
  match ioctlBo p args env with
  | .error e => (p, .error e)
  | .ok b =>
    if env.idrAlloc then
      let id := firstFreeId (p.allocIdr.map Prod.fst)
      let p := { p with allocIdr := (id, b) :: p.allocIdr }
      if args.flags.vram then
        let size := if args.flags.aqlQueueMem then args.size / 2 else args.size
        ({ p with vramUsage := p.vramUsage + align size pageSize }, .ok id)
      else (p, .ok id)
    else (freeUnwound p b env, .error .efault)

/-- `kfd_ioctl_free_memory_of_gpu`. `signal` says that the handle is `signal_handle`, `found` that
the device is. -/
def kfdIoctlFree (p : Pdd) (handle : Nat) (signal found : Bool) (accounts : State)
    (mapped : Bool) (reserve : Option Errno) : Pdd × Except Errno Unit :=
  if signal then (p, .error .eperm)
  else if ¬ found then (p, .error .einval)
  else
    match p.allocIdr.find? fun entry => entry.1 == handle with
    | none => (p, .error .einval)
    | some (_, b) =>
      match (freeMemoryOfGpu accounts b mapped reserve).2 with
      | .error e => (p, .error e)
      | .ok size =>
        ({ p with
            allocIdr := p.allocIdr.eraseP fun entry => entry.1 == handle
            vramUsage := p.vramUsage - size }, .ok ())

/-- The BO of `criu_restore_memory_of_gpu`. The offset of memory that is neither a device's nor the
user's is not set, and not read. -/
def restoredBo (p : Pdd) (bucket : Bucket) (env : Env) : Except Errno Bo :=
  match deviceOffset bucket.flags bucket.size bucket.userAddr env with
  | .error e => .error e
  | .ok offset => allocBo env.accounts (memArgs p.dev bucket.size bucket.flags offset env)

/-- `criu_restore_memory_of_gpu`. -/
def criuRestore (p : Pdd) (bucket : Bucket) (env : Env) : Pdd × Except Errno Unit :=
  match restoredBo p bucket env with
  | .error e => (p, .error e)
  | .ok b =>
    if idrAllocAt p bucket.idrHandle env.idrAlloc then
      let p := { p with allocIdr := (bucket.idrHandle, b) :: p.allocIdr }
      if bucket.flags.mmioRemap then (p, .ok ())
      else if bucket.flags.gtt then (p, .ok ())
      else if bucket.flags.vram then
        ({ p with vramUsage := p.vramUsage + bucket.size }, .ok ())
      else (p, .ok ())
    else (freeUnwound p b env, .error .enomem)

/-- The calls. -/
inductive Op
  | alloc (args : AllocArgs) (env : Env)
  | free (handle : Nat) (signal found : Bool) (accounts : State) (mapped : Bool)
      (reserve : Option Errno)
  | restore (bucket : Bucket) (env : Env)

def step (p : Pdd) : Op → Pdd
  | .alloc args env => (kfdIoctlAlloc p args env).1
  | .free handle signal found accounts mapped reserve =>
    (kfdIoctlFree p handle signal found accounts mapped reserve).1
  | .restore bucket env => (criuRestore p bucket env).1

/-! ## What is to be shown -/

def Pdd.live (p : Pdd) : List Bo := p.allocIdr.map Prod.snd ++ p.leaked

def vramBytes (b : Bo) : Nat := if b.mem.allocFlags.vram then b.size else 0

def Pdd.vramBytes (p : Pdd) : Nat := (p.live.map VramUsage.vramBytes).sum

/-- The counter is the sum over the live BOs that have the VRAM flag, and not negative. -/
def Right (p : Pdd) : Prop := p.vramUsage = p.vramBytes ∧ 0 ≤ p.vramUsage

def Unwinds (b : Bo) (env : Env) : Prop := env.reserve = none ∨ vramBytes b = 0

/-- The free of a BO takes off what it counts for: by its flags, one that is pinned for a device
prefers GTT, and GTT is only taken off on an APU. -/
def FreeAgrees (b : Bo) : Prop :=
  b.size = 0 ∨
    if b.mem.allocFlags.vram then b.mem.allocFlags.pins = true → b.dev.apu = true
    else b.mem.allocFlags.gtt = true ∨ b.mem.allocFlags.pins = true → b.dev.apu = false

/-- A restored BO is counted by its bucket: with the VRAM flag alone, of whole pages and not
halved. -/
def RestoreAgrees (bucket : Bucket) (b : Bo) : Prop :=
  bucket.flags.vram = true →
    if bucket.flags.mmioRemap ∨ bucket.flags.gtt then b.size = 0 else bucket.size = b.size

/-- Both sides of the counter go by the same amount. -/
def Agrees (p : Pdd) : Op → Prop
  | .alloc args env =>
    ∀ b, ioctlBo p args env = .ok b → env.idrAlloc = false → Unwinds b env
  | .free handle signal found _ mapped reserve =>
    signal = false → found = true → mapped = false → reserve = none →
      ∀ entry, (p.allocIdr.find? fun entry => entry.1 == handle) = some entry → FreeAgrees entry.2
  | .restore bucket env =>
    ∀ b, restoredBo p bucket env = .ok b →
      if idrAllocAt p bucket.idrHandle env.idrAlloc then RestoreAgrees bucket b
      else Unwinds b env

/-! ## The BOs of the allocation -/

/-- The domain that the allocation gives a BO with these flags. -/
def preferredDomain (dev : Dev) (flags : Flags) : Domain :=
  if flags.pins then .gtt
  else if flags.vram then if dev.apu then .gtt else .vram
  else if flags.gtt then .gtt
  else .cpu

structure Made (dev : Dev) (b : Bo) : Prop where
  dev : b.dev = dev
  domain : b.preferredDomain = preferredDomain b.dev b.mem.allocFlags

variable {a : Args} {accounts : State} {b : Bo} {p : Pdd}

theorem place_domain {domain : Domain} {xcp : Option Nat} (h : place a = .ok (domain, xcp)) :
    domain = if a.flags.vram then if a.dev.apu then .gtt else .vram
      else if a.flags.gtt then .gtt else .cpu := by
  unfold place at h
  split_ifs at h ⊢ <;> first | cases h; rfl | (split at h <;> cases h; rfl)

section
variable (h : allocBo accounts a = .ok b)
include h

theorem allocBo_ok : ∃ domain xcp id, place a = .ok (domain, xcp) ∧ b = a.bo id domain xcp := by
  unfold allocBo at h
  split at h
  · cases h
  · cases h
  case h_3 domain xcp id hp _ => exact ⟨domain, xcp, id, hp, (Except.ok.inj h).symm⟩

theorem allocBo_made : Made a.dev b := by
  obtain ⟨domain, xcp, id, hp, rfl⟩ := allocBo_ok h
  refine ⟨rfl, ?_⟩
  show (if a.flags.pins then Domain.gtt else domain) = preferredDomain a.dev a.flags
  rw [place_domain hp, preferredDomain]

theorem allocBo_bytes : vramBytes b = if a.flags.vram then alignedSize a else 0 := by
  obtain ⟨domain, xcp, id, -, rfl⟩ := allocBo_ok h
  show (if a.flags.vram then align (alignedSize a) pageSize else 0) = _
  rw [alignedSize, align_align]

theorem allocBo_size : b.size = alignedSize a ∧ b.mem.allocFlags = a.flags := by
  obtain ⟨domain, xcp, id, -, rfl⟩ := allocBo_ok h
  refine ⟨?_, rfl⟩
  show align (alignedSize a) pageSize = _
  rw [alignedSize, align_align]

end

/-! ## What the calls do -/

def freedBytes (b : Bo) : Nat :=
  if b.preferredDomain = .vram ∨ b.dev.apu ∧ b.preferredDomain = .gtt then b.size else 0

theorem free_ok (accounts : State) (b : Bo) :
    (freeMemoryOfGpu accounts b false none).2 = .ok (freedBytes b) := by
  simp [freeMemoryOfGpu, freedBytes]

theorem of_free_ok {mapped : Bool} {reserve : Option Errno} {n : Nat}
    (h : (freeMemoryOfGpu accounts b mapped reserve).2 = .ok n) :
    mapped = false ∧ reserve = none ∧ n = freedBytes b := by
  cases mapped with
  | true => simp [freeMemoryOfGpu] at h
  | false =>
    cases reserve with
    | some e => simp [freeMemoryOfGpu] at h
    | none =>
      rw [free_ok] at h
      exact ⟨rfl, rfl, (Except.ok.inj h).symm⟩

theorem freedBytes_eq_iff {dev : Dev} (h : Made dev b) :
    freedBytes b = vramBytes b ↔ FreeAgrees b := by
  unfold freedBytes vramBytes FreeAgrees
  rw [h.domain, preferredDomain]
  -- the four things that the two amounts go by
  cases b.mem.allocFlags.pins <;> cases b.mem.allocFlags.vram <;> cases b.mem.allocFlags.gtt <;>
    cases b.dev.apu <;> simp [eq_comm]

theorem freeUnwound_cases (p : Pdd) (b : Bo) (env : Env) :
    (env.reserve = none ∧ freeUnwound p b env = p) ∨
      (env.reserve ≠ none ∧ freeUnwound p b env = { p with leaked := b :: p.leaked }) := by
  unfold freeUnwound
  cases h : env.reserve with
  | none =>
    rw [free_ok]
    exact .inl ⟨rfl, rfl⟩
  | some e => exact .inr ⟨by simp, by simp [freeMemoryOfGpu]⟩

theorem kfdIoctlAlloc_cases (p : Pdd) (args : AllocArgs) (env : Env) :
    ((∀ b, ioctlBo p args env ≠ .ok b) ∧ (kfdIoctlAlloc p args env).1 = p) ∨
      ∃ b, ioctlBo p args env = .ok b ∧ Made p.dev b ∧
        ((env.idrAlloc = true ∧ ∃ id, (kfdIoctlAlloc p args env).1 =
            { p with allocIdr := (id, b) :: p.allocIdr, vramUsage := p.vramUsage + vramBytes b }) ∨
          (env.idrAlloc = false ∧ (kfdIoctlAlloc p args env).1 = freeUnwound p b env)) := by
  unfold kfdIoctlAlloc
  cases hb : ioctlBo p args env with
  | error e => exact .inl ⟨fun b h => (by cases h), rfl⟩
  | ok b =>
    have halloc : ∃ offset,
        allocBo env.accounts (memArgs p.dev args.size args.flags offset env) = .ok b := by
      unfold ioctlBo at hb
      split at hb
      · cases hb
      case h_2 offset _ => exact ⟨offset, hb⟩
    obtain ⟨offset, halloc⟩ := halloc
    refine .inr ⟨b, rfl, allocBo_made halloc, ?_⟩
    cases hidr : env.idrAlloc with
    | false => exact .inr ⟨rfl, by simp⟩
    | true =>
      refine .inl ⟨rfl, firstFreeId (p.allocIdr.map Prod.fst), ?_⟩
      rw [allocBo_bytes halloc]
      cases hv : args.flags.vram with
      | false => simp [memArgs, hv]
      | true =>
        simp only [memArgs, hv, if_true]
        rfl

theorem kfdIoctlFree_cases (p : Pdd) (handle : Nat) (signal found : Bool) (accounts : State)
    (mapped : Bool) (reserve : Option Errno) :
    let find := p.allocIdr.find? fun entry => entry.1 == handle
    ((signal = false → found = true → mapped = false → reserve = none → find = none) ∧
        (kfdIoctlFree p handle signal found accounts mapped reserve).1 = p) ∨
      ∃ entry, find = some entry ∧
        signal = false ∧ found = true ∧ mapped = false ∧ reserve = none ∧
        (kfdIoctlFree p handle signal found accounts mapped reserve).1 =
          { p with
            allocIdr := p.allocIdr.eraseP fun entry => entry.1 == handle
            vramUsage := p.vramUsage - freedBytes entry.2 } := by
  intro find
  unfold kfdIoctlFree
  cases signal with
  | true => exact .inl ⟨fun h => (by cases h), rfl⟩
  | false =>
    cases found with
    | false => exact .inl ⟨fun _ h => (by cases h), rfl⟩
    | true =>
      cases hfind : p.allocIdr.find? fun entry => entry.1 == handle with
      | none => exact .inl ⟨fun _ _ _ _ => hfind, by simp⟩
      | some entry =>
        cases hret : (freeMemoryOfGpu accounts entry.2 mapped reserve).2 with
        | error e =>
          refine .inl ⟨fun _ _ hmapped hreserve => ?_, by simp [hret]⟩
          rw [hmapped, hreserve, free_ok] at hret
          cases hret
        | ok n =>
          obtain ⟨rfl, rfl, rfl⟩ := of_free_ok hret
          exact .inr ⟨entry, hfind, rfl, rfl, rfl, rfl, by simp [hret]⟩

/-- What a restore adds to the counter. -/
def restoredBytes (bucket : Bucket) : Nat :=
  if bucket.flags.mmioRemap then 0
  else if bucket.flags.gtt then 0
  else if bucket.flags.vram then bucket.size
  else 0

theorem criuRestore_cases (p : Pdd) (bucket : Bucket) (env : Env) :
    ((∀ b, restoredBo p bucket env ≠ .ok b) ∧ (criuRestore p bucket env).1 = p) ∨
      ∃ b, restoredBo p bucket env = .ok b ∧ Made p.dev b ∧ b.mem.allocFlags = bucket.flags ∧
        ((idrAllocAt p bucket.idrHandle env.idrAlloc = true ∧ (criuRestore p bucket env).1 =
            { p with
              allocIdr := (bucket.idrHandle, b) :: p.allocIdr
              vramUsage := p.vramUsage + restoredBytes bucket }) ∨
          (idrAllocAt p bucket.idrHandle env.idrAlloc = false ∧
            (criuRestore p bucket env).1 = freeUnwound p b env)) := by
  unfold criuRestore
  cases hb : restoredBo p bucket env with
  | error e => exact .inl ⟨fun b h => (by cases h), rfl⟩
  | ok b =>
    have halloc : ∃ offset,
        allocBo env.accounts (memArgs p.dev bucket.size bucket.flags offset env) = .ok b := by
      unfold restoredBo at hb
      split at hb
      · cases hb
      case h_2 offset _ => exact ⟨offset, hb⟩
    obtain ⟨offset, halloc⟩ := halloc
    refine .inr ⟨b, rfl, allocBo_made halloc, (allocBo_size halloc).2, ?_⟩
    cases hidr : idrAllocAt p bucket.idrHandle env.idrAlloc with
    | false => exact .inr ⟨rfl, by simp⟩
    | true =>
      refine .inl ⟨rfl, ?_⟩
      unfold restoredBytes
      simp only [if_true]
      split_ifs <;> simp

theorem restoredBytes_eq_iff {bucket : Bucket} (h : b.mem.allocFlags = bucket.flags) :
    restoredBytes bucket = vramBytes b ↔ RestoreAgrees bucket b := by
  unfold restoredBytes vramBytes RestoreAgrees
  rw [h]
  cases bucket.flags.mmioRemap <;> cases bucket.flags.gtt <;> cases bucket.flags.vram <;>
    simp [eq_comm]

/-! ## One call -/

def Inv (p : Pdd) : Prop := ∀ b ∈ p.live, Made p.dev b

theorem inv_init (dev : Dev) : Inv (init dev) := fun _ hb => absurd hb not_mem_nil

theorem inv_addHandle (h : Inv p) (hb : Made p.dev b) (id : Nat) (n : Int) :
    Inv { p with allocIdr := (id, b) :: p.allocIdr, vramUsage := n } := by
  intro b' hb'
  rcases mem_cons.mp hb' with rfl | hb'
  · exact hb
  · exact h b' hb'

theorem inv_leak (h : Inv p) (hb : Made p.dev b) : Inv { p with leaked := b :: p.leaked } := by
  intro b' hb'
  rcases mem_append.mp hb' with hb' | hb'
  · exact h b' (mem_append_left _ hb')
  · rcases mem_cons.mp hb' with rfl | hb'
    · exact hb
    · exact h b' (mem_append_right _ hb')

theorem inv_remove (h : Inv p) (test : Nat × Bo → Bool) (n : Int) :
    Inv { p with allocIdr := p.allocIdr.eraseP test, vramUsage := n } := by
  intro b hb
  rcases mem_append.mp hb with hb | hb
  · obtain ⟨entry, hentry, rfl⟩ := mem_map.mp hb
    exact h _ (mem_append_left _ (mem_map_of_mem (mem_of_mem_eraseP hentry)))
  · exact h b (mem_append_right _ hb)

theorem inv_freeUnwound (h : Inv p) (hb : Made p.dev b) (env : Env) :
    Inv (freeUnwound p b env) := by
  rcases freeUnwound_cases p b env with ⟨-, he⟩ | ⟨-, he⟩
  · rwa [he]
  · rw [he]
    exact inv_leak h hb

theorem Inv.step (h : Inv p) (op : Op) : Inv (step p op) := by
  cases op with
  | alloc args env =>
    show Inv (kfdIoctlAlloc p args env).1
    rcases kfdIoctlAlloc_cases p args env with ⟨-, he⟩ | ⟨b, -, hb, ⟨-, id, he⟩ | ⟨-, he⟩⟩ <;>
      rw [he]
    · exact h
    · exact inv_addHandle h hb id _
    · exact inv_freeUnwound h hb env
  | free handle signal found accounts mapped reserve =>
    show Inv (kfdIoctlFree p handle signal found accounts mapped reserve).1
    rcases kfdIoctlFree_cases p handle signal found accounts mapped reserve with
      ⟨-, he⟩ | ⟨entry, -, -, -, -, -, he⟩ <;> rw [he]
    · exact h
    · exact inv_remove h _ _
  | restore bucket env =>
    show Inv (criuRestore p bucket env).1
    rcases criuRestore_cases p bucket env with ⟨-, he⟩ | ⟨b, -, hb, -, ⟨-, he⟩ | ⟨-, he⟩⟩ <;>
      rw [he]
    · exact h
    · exact inv_addHandle h hb _ _
    · exact inv_freeUnwound h hb env

theorem right_iff (p : Pdd) : Right p ↔ p.vramUsage = p.vramBytes :=
  ⟨fun h => h.1, fun h => ⟨h, h ▸ Int.natCast_nonneg _⟩⟩

theorem vramBytes_eraseP {test : Nat × Bo → Bool} {entry : Nat × Bo}
    (h : p.allocIdr.find? test = some entry) (n : Int) :
    p.vramBytes = vramBytes entry.2 +
      Pdd.vramBytes { p with allocIdr := p.allocIdr.eraseP test, vramUsage := n } := by
  obtain ⟨htest, before, after, hlist, hbefore⟩ := find?_eq_some_iff_append.mp h
  have herase : p.allocIdr.eraseP test = before ++ after := by
    rw [hlist, eraseP_append_right _ fun e he => by simpa using hbefore e he,
      eraseP_cons_of_pos htest]
  show (((p.allocIdr.map Prod.snd) ++ p.leaked).map _).sum =
    _ + (((p.allocIdr.eraseP test).map Prod.snd ++ p.leaked).map _).sum
  rw [herase, hlist]
  simp only [map_append, map_cons, sum_append, sum_cons]
  ac_rfl

theorem vramBytes_addHandle (p : Pdd) (id : Nat) (b : Bo) (n : Int) :
    Pdd.vramBytes { p with allocIdr := (id, b) :: p.allocIdr, vramUsage := n } =
      vramBytes b + p.vramBytes :=
  rfl

theorem vramBytes_leak (p : Pdd) (b : Bo) :
    Pdd.vramBytes { p with leaked := b :: p.leaked } = vramBytes b + p.vramBytes := by
  simp only [Pdd.vramBytes, Pdd.live, map_append, map_cons, sum_append,
    sum_cons]
  exact Nat.add_left_comm _ _ _

theorem right_freeUnwound_iff (h : Right p) (b : Bo) (env : Env) :
    Right (freeUnwound p b env) ↔ Unwinds b env := by
  rcases freeUnwound_cases p b env with ⟨hreserve, he⟩ | ⟨hreserve, he⟩
  · rw [he]
    exact iff_of_true h (.inl hreserve)
  · have hsum := h.1
    rw [he, right_iff, vramBytes_leak, Unwinds, or_iff_right hreserve]
    show p.vramUsage = _ ↔ _
    omega

theorem right_addHandle_iff (h : Right p) (id : Nat) (b : Bo) (added : Nat) :
    Right { p with allocIdr := (id, b) :: p.allocIdr, vramUsage := p.vramUsage + added } ↔
      added = vramBytes b := by
  have hsum := h.1
  rw [right_iff, vramBytes_addHandle]
  show p.vramUsage + added = _ ↔ _
  omega

theorem right_step_iff (hinv : Inv p) (h : Right p) (op : Op) :
    Right (step p op) ↔ Agrees p op := by
  cases op with
  | alloc args env =>
    show Right (kfdIoctlAlloc p args env).1 ↔ _
    rcases kfdIoctlAlloc_cases p args env with
      ⟨hb, he⟩ | ⟨b, hb, -, ⟨hidr, id, he⟩ | ⟨hidr, he⟩⟩ <;> rw [he]
    · exact iff_of_true h fun b hb' => absurd hb' (hb b)
    · refine iff_of_true ((right_addHandle_iff h id b _).mpr rfl) fun b' _ hidr' => ?_
      rw [hidr] at hidr'
      cases hidr'
    · rw [right_freeUnwound_iff h]
      refine ⟨fun hu b' hb' _ => ?_, fun ha => ha b hb hidr⟩
      obtain rfl := Except.ok.inj (hb.symm.trans hb')
      exact hu
  | free handle signal found accounts mapped reserve =>
    -- The sum loses what the allocation has counted, the counter what the free takes off.
    show Right (kfdIoctlFree p handle signal found accounts mapped reserve).1 ↔ _
    rcases kfdIoctlFree_cases p handle signal found accounts mapped reserve with
      ⟨hnone, he⟩ | ⟨entry, hfind, hsignal, hfound, hmapped, hreserve, he⟩ <;> rw [he]
    · refine iff_of_true h fun hsignal hfound hmapped hreserve entry hentry => ?_
      rw [hnone hsignal hfound hmapped hreserve] at hentry
      cases hentry
    · have hmade : Made p.dev entry.2 :=
        hinv _ (mem_append_left _ (mem_map_of_mem (mem_of_find?_eq_some hfind)))
      have hsum := h.1
      have herase := vramBytes_eraseP hfind (p.vramUsage - freedBytes entry.2)
      have hright : Right { p with
          allocIdr := p.allocIdr.eraseP fun entry => entry.1 == handle
          vramUsage := p.vramUsage - freedBytes entry.2 } ↔ FreeAgrees entry.2 := by
        rw [right_iff, ← freedBytes_eq_iff hmade]
        show p.vramUsage - freedBytes entry.2 = _ ↔ _
        omega
      rw [hright]
      refine ⟨fun ha _ _ _ _ entry' hentry' => ?_,
        fun ha => ha hsignal hfound hmapped hreserve entry hfind⟩
      obtain rfl := Option.some.inj (hfind.symm.trans hentry')
      exact ha
  | restore bucket env =>
    show Right (criuRestore p bucket env).1 ↔ _
    rcases criuRestore_cases p bucket env with
      ⟨hb, he⟩ | ⟨b, hb, -, hflags, ⟨hidr, he⟩ | ⟨hidr, he⟩⟩ <;> rw [he]
    · exact iff_of_true h fun b hb' => absurd hb' (hb b)
    · rw [right_addHandle_iff h, restoredBytes_eq_iff hflags]
      constructor
      · intro ha b' hb'
        obtain rfl := Except.ok.inj (hb.symm.trans hb')
        rwa [if_pos hidr]
      · intro ha
        have hb' := ha b hb
        rwa [if_pos hidr] at hb'
    · rw [right_freeUnwound_iff h]
      have hnot : ¬ idrAllocAt p bucket.idrHandle env.idrAlloc = true := by simp [hidr]
      constructor
      · intro hu b' hb'
        obtain rfl := Except.ok.inj (hb.symm.trans hb')
        rwa [if_neg hnot]
      · intro ha
        have hb' := ha b hb
        rwa [if_neg hnot] at hb'

/-! ## Runs -/

/-- The counter is the sum over the live BOs after every call of a run, and not negative, exactly
when every call of the run goes by the same amount on both sides. -/
theorem vram_usage_right_iff (dev : Dev) (ops : List Op) :
    (∀ n, Right (run step (init dev) (ops.take n))) ↔ StepsOk step Agrees (init dev) ops := by
  have hboth : ∀ p op, Inv p ∧ Right p →
      ((Inv (step p op) ∧ Right (step p op)) ↔ Agrees p op) := by
    intro p op ⟨hinv, h⟩
    rw [← right_step_iff hinv h op]
    exact and_iff_right (hinv.step op)
  have hrun := stepsOk_iff_take hboth ⟨inv_init dev, (right_iff _).mpr rfl⟩ ops
  have hinv (n : Nat) : Inv (run step (init dev) (ops.take n)) :=
    run_inv (fun _ op h => h.step op) (inv_init dev) _
  rw [← hrun]
  exact forall_congr' fun n => (and_iff_right (hinv n)).symm

def exEnv : Env :=
  { svmRange := false, svmUserRange := false, pddFound := true, largeBar := true, bind := none
    processSlice := 8192, doorbells := 4096, rmmioRemap := 4096, accounts := MemLimit.init
    xcp := none
    limits :=
      { maxSystemMemLimit := 0x100000, maxTtmMemLimit := 0x100000, noSystemMemLimit := false
        xcpMemorySize := fun _ => 0, totalMemSize := 0, vramPinSize := 0 }
    sgTable := true, kzalloc := true, gemObjectCreate := none, vmaNodeAllow := none
    gemHandleCreate := none, prepare := none, idrAlloc := true, reserve := none }

def exApu : Dev := { num := 0, apu := true, memPartitions := false }

def exOps : List Op :=
  [.alloc ⟨0x10000, 4096, 0, { gtt := true }, false⟩ exEnv,
    .free 0 false true MemLimit.init false none]

/-- On an APU the free of GTT memory takes off what was never added. -/
theorem vram_usage_negative :
    (run step (init exApu) exOps).vramUsage = -4096 ∧
      ¬ ∀ n, Right (run step (init exApu) (exOps.take n)) := by
  have husage : (run step (init exApu) exOps).vramUsage = -4096 := by decide
  refine ⟨husage, fun h => ?_⟩
  have hpos : 0 ≤ (run step (init exApu) exOps).vramUsage := (h 2).2
  rw [husage] at hpos
  exact absurd hpos (by decide)

end Amdkfd.VramUsage

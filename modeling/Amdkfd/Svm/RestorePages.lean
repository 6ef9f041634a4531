import Amdkfd.Svm.Reservation
import Amdkfd.Svm.Validated

/-!
# Retry faults of GPUs

`svm_range_restore_pages` of `kfd_svm.c`, with `svm_range_best_restore_location`. The outcome
of the migrations and of the mapping is part of the input; the calls are recorded.

A preferred location that the GPU reaches is used before the access of the GPU is tested, and
so is system memory on an APU. All other faults of a GPU without access end with `-EACCES`.
-/

namespace Amdkfd.Svm.RestorePages

open Lib Option

/-! ## Devices -/

/-- What is read of a `struct amdgpu_device`: its number, whether its VRAM has device pages,
`gmc.is_app_apu`, `AMD_IS_APU`, and `gmc.xgmi.hive_id`. -/
structure AmdgpuDevice where
  id : Nat
  pgmap : Bool
  isAppApu : Bool
  isApu : Bool
  hiveId : UInt64
  deriving DecidableEq

structure KfdNode where
  id : Nat
  adev : AmdgpuDevice
  deriving DecidableEq

def AmdgpuDevice.svmApiSupported (adev : AmdgpuDevice) : Bool :=
  adev.pgmap || adev.isAppApu || adev.isApu

def amdgpuXgmiSameHive (useXgmiP2p : Bool) (adev boAdev : AmdgpuDevice) : Bool :=
  useXgmiP2p && adev ≠ boAdev && adev.hiveId ≠ 0 && adev.hiveId == boAdev.hiveId

def svmNodesInSameHive (useXgmiP2p : Bool) (a b : KfdNode) : Bool :=
  a.adev = b.adev || amdgpuXgmiSameHive useXgmiP2p a.adev b.adev

/-- The nodes of the GPUs of a process, by GPU index, and `amdgpu_use_xgmi_p2p`. -/
structure Devices where
  dev : Nat → KfdNode
  useXgmiP2p : Bool

def kfdProcessGpuidFromNode (p : Process) (d : Devices) (node : KfdNode) : Option (UInt32 × Nat) :=
  p.gpuIds.zipIdx.find? fun g => d.dev g.2 = node

def svmRangeGetNodeById (p : Process) (d : Devices) (gpuId : UInt32) : Option KfdNode :=
  if gpuId = 0 then none else (gpuidxFromGpuid p gpuId).map d.dev

/-! ## The location -/

/-- `-1`. -/
def noLocation : UInt32 := 0xffffffff

def sameHive (p : Process) (d : Devices) (node : KfdNode) (loc : UInt32) : Bool :=
  (svmRangeGetNodeById p d loc).any (svmNodesInSameHive d.useXgmiP2p node)

/-- The end of `svm_range_best_restore_location`, where the bitmaps are tested. -/
def accessLocation (p : Process) (d : Devices) (r : Range) (node : KfdNode) (gpuid : UInt32)
    (gpuidx : Nat) : UInt32 :=
  if gpuidx ∈ r.attrs.access then gpuid
  else if gpuidx ∈ r.attrs.aip then
    if r.actualLoc = 0 then 0
    else if sameHive p d node r.actualLoc then r.actualLoc
    else 0
  else noLocation

def svmRangeBestRestoreLocation (p : Process) (d : Devices) (r : Range) (node : KfdNode) :
    UInt32 × Option Nat :=
  match kfdProcessGpuidFromNode p d node with
  | none => (noLocation, none)
  | some (gpuid, gpuidx) =>
    if node.adev.isAppApu || node.adev.isApu then (0, some gpuidx)
    else if r.attrs.preferredLoc = gpuid ∨ r.attrs.preferredLoc = locationSysmem then
      (r.attrs.preferredLoc, some gpuidx)
    else if r.attrs.preferredLoc ≠ locationUndefined ∧
        sameHive p d node r.attrs.preferredLoc then
      (r.attrs.preferredLoc, some gpuidx)
    else (accessLocation p d r node gpuid gpuidx, some gpuidx)

/-! ## The fault -/

/-- `list_empty(&prange->child_list)`: the list of a child is that of its parent. -/
def childListEmpty (s : Svms) (id : Nat) : Bool :=
  (s.heap id).children.isEmpty && s.tree.all fun parent => id ∉ (s.heap parent).children

def svmRangeSkipRecover (mm : Mm) (id : Nat) : Bool :=
  if id ∉ mm.deferred ∧ childListEmpty mm.svms id = true then false
  else
    match (mm.svms.heap id).workOp with
    | .unmapRange => true
    | .addRange => true
    | _ => false

def svmFaultAllowed (vma : Vma) (writeFault : Bool) : Bool :=
  vma.read && (!writeFault || vma.write)

/-- `AMDGPU_SVM_RANGE_RETRY_FAULT_PENDING`, in nanoseconds. -/
def retryFaultPending : Int := 2000000

/-- The calls for which the test of the access is made. -/
inductive Call
  | migrateToVram (id : Nat) (bestLoc : UInt32) (start last : Nat)
  | migrateVramToRam (id start last : Nat)
  | validateAndMap (id start last gpuidx : Nat)
  deriving DecidableEq

/-- A fault and what `svm_range_restore_pages` finds: the device and its node, whether there
are a process and its `mm`, `drain_pagefaults`, and the process after the locks were given up
for the write lock. `migrate` is the outcome of a migration. -/
structure RetryFault extends Fault where
  adev : AmdgpuDevice
  node : Option KfdNode
  devices : Devices
  hasProcess : Bool
  hasMm : Bool
  draining : Bool
  writeFault : Bool
  timestamp : Int
  validateTimestamp : Nat → Int
  relocked : Account
  vmas : Vmas
  migrate : Call → Mm → Mm × Option Errno
  validate : ValidateEnv

/-- What a fault leaves: the process, the calls in order, the result, the GPU whose fault is
counted, and whether `amdgpu_gmc_filter_faults_remove` was called. -/
structure Outcome where
  st : Account
  calls : List Call
  err : Option Errno
  counted : Option Nat
  filterRemoved : Bool

def migrateOrFallBack (f : RetryFault) (id : Nat) (bestLoc : UInt32) (start last : Nat) (mm : Mm) :
    Mm × List Call × Option Errno :=
  let toVram := Call.migrateToVram id bestLoc start last
  let toRam := Call.migrateVramToRam id start last
  match f.migrate toVram mm with
  | (mm, none) => (mm, [toVram], none)
  | (mm, some _) =>
    let actualLoc := (mm.svms.heap id).actualLoc
    if actualLoc ≠ 0 ∧ actualLoc ≠ bestLoc then
      let r := f.migrate toRam mm
      (r.1, [toVram, toRam], r.2)
    else (mm, [toVram], none)

/-- The migration of `svm_range_restore_pages`. -/
def migrateForFault (f : RetryFault) (id : Nat) (bestLoc : UInt32) (start last : Nat) (mm : Mm) :
    Mm × List Call × Option Errno :=
  if (mm.svms.heap id).actualLoc ≠ 0 ∨ bestLoc ≠ 0 then
    if bestLoc ≠ 0 then migrateOrFallBack f id bestLoc start last mm
    else
      let toRam := Call.migrateVramToRam id start last
      let r := f.migrate toRam mm
      (r.1, [toRam], r.2)
  else (mm, [], none)

def restoreTo (p : Process) (f : RetryFault) (id : Nat) (bestLoc : UInt32) (gpuidx : Nat)
    (mm : Mm) : Mm × List Call × Option Errno :=
  let prange := mm.svms.heap id
  let size := 2 ^ prange.attrs.granularity
  let start := max (alignDown f.addr size) prange.start
  let last := min (alignUp (f.addr + 1) size - 1) prange.last
  match migrateForFault f id bestLoc start last mm with
  | (mm, calls, some e) => (mm, calls, some e)
  | (mm, calls, none) =>
    let r := svmRangeValidateAndMap p f.vmas f.validate id start last gpuidx mm
    (r.1, calls ++ [.validateAndMap id start last gpuidx], r.2)

/-- `svm_range_restore_pages` from the point where it holds the locks of the range, up to
`out_unlock_range`. The Boolean tells whether the fault was taken out of the filter. -/
def restoreRange (p : Process) (f : RetryFault) (node : KfdNode) (id : Nat) (mm : Mm) :
    (Mm × List Call × Option Errno) × Option Nat × Bool :=
  if svmRangeSkipRecover mm id then ((mm, [], none), none, true)
  else if f.timestamp < f.validateTimestamp id + retryFaultPending then
    ((mm, [], none), none, false)
  else
    match vmaLookup f.vmas (f.addr * 4096) with
    | none => ((mm, [], none), none, false)
    | some vma =>
      if svmFaultAllowed vma f.writeFault = false then ((mm, [], some .eperm), none, false)
      else
        match svmRangeBestRestoreLocation p f.devices (mm.svms.heap id) node with
        | (bestLoc, gpuidx) =>
          if bestLoc = noLocation then ((mm, [], some .eacces), gpuidx, false)
          else (restoreTo p f id bestLoc (gpuidx.getD maxGpuInstance) mm, gpuidx, false)

/-- The range of a fault: the one that has the page, or a new one. -/
def faultRange (f : RetryFault) (st : Account) : Account × Option Nat :=
  match svmRangeFromAddr st.mm.svms f.addr with
  | some id => (st, some id)
  | none =>
    match svmRangeFromAddr f.relocked.mm.svms f.addr with
    | some id => (f.relocked, some id)
    | none =>
      match svmRangeCreateUnregisteredRange f.relocked f.toFault with
      | (st, some _) => (st, none)
      | (st, none) => (st, some f.relocked.mm.svms.next)

def svmRangeCountFault (p : Process) (d : Devices) (node : KfdNode) (gpuidx : Option Nat) :
    Option Nat :=
  match gpuidx with
  | some gpuidx => if gpuidx < p.gpuIds.length then some gpuidx else none
  | none => (kfdProcessGpuidFromNode p d node).map Prod.snd

/-- The tests of `svm_range_restore_pages` before it takes locks: the node of the fault, or
what is returned at once. -/
def RetryFault.entry (f : RetryFault) : Except (Option Errno) KfdNode :=
  if f.adev.svmApiSupported = false then .error (some .efault)
  else if f.hasProcess = false then .error none
  else if f.draining then .error none
  else if f.xnackSeen = false then .error (some .efault)
  else if f.hasMm = false then .error none
  else
    match f.node with
    | none => .error (some .efault)
    | some node => .ok node

def svmRangeRestorePages (f : RetryFault) (st : Account) : Outcome :=
  match f.entry with
  | .error r => { st := st, calls := [], err := r, counted := none, filterRemoved := false }
  | .ok node =>
    match faultRange f st with
    | (st, none) =>
      { st := st, calls := [], err := some .efault
        counted := svmRangeCountFault st.proc f.devices node none, filterRemoved := false }
    | (st, some id) =>
      let ((mm, calls, r), gpuidx, removed) := restoreRange st.proc f node id st.mm
      let counted := svmRangeCountFault st.proc f.devices node gpuidx
      let st := { st with mm := mm }
      -- "recover vm fault later"
      if r = some .eagain then
        { st := st, calls := calls, err := none, counted := counted, filterRemoved := true }
      else { st := st, calls := calls, err := r, counted := counted, filterRemoved := removed }

/-! ## GPUs without access -/

section NoAccess
variable {p : Process} {d : Devices} {r : Range} {node : KfdNode} {f : RetryFault} {id : Nat}
  {mm : Mm} {st : Account}

/-- The GPU can use the preferred location: its own VRAM, system memory, or the VRAM of a GPU
of its hive. -/
def PreferredReached (p : Process) (d : Devices) (r : Range) (node : KfdNode) (gpuid : UInt32) :
    Prop :=
  r.attrs.preferredLoc = gpuid ∨ r.attrs.preferredLoc = locationSysmem ∨
    r.attrs.preferredLoc ≠ locationUndefined ∧ sameHive p d node r.attrs.preferredLoc = true
  deriving Decidable

/-- The bit of the GPU is in neither bitmap, it is no APU, and it cannot use the preferred
location. -/
structure Denied (p : Process) (d : Devices) (r : Range) (node : KfdNode) : Prop where
  access : ∀ g ∈ kfdProcessGpuidFromNode p d node, g.2 ∉ r.attrs.access
  aip : ∀ g ∈ kfdProcessGpuidFromNode p d node, g.2 ∉ r.attrs.aip
  apu : (node.adev.isAppApu || node.adev.isApu) = false
  preferred : ∀ g ∈ kfdProcessGpuidFromNode p d node, ¬PreferredReached p d r node g.1

theorem bestRestoreLocation_noAccess (h : Denied p d r node) :
    (svmRangeBestRestoreLocation p d r node).1 = noLocation := by
  unfold svmRangeBestRestoreLocation
  cases hgpu : kfdProcessGpuidFromNode p d node with
  | none => rfl
  | some g =>
    obtain ⟨gpuid, gpuidx⟩ := g
    have hpref : ¬PreferredReached p d r node gpuid := h.preferred _ hgpu
    simp only [PreferredReached, not_or] at hpref
    obtain ⟨hown, hsys, hhive⟩ := hpref
    have hplace : accessLocation p d r node gpuid gpuidx = noLocation := by
      rw [accessLocation, if_neg (h.access _ hgpu), if_neg (h.aip _ hgpu)]
    simp only [h.apu, Bool.false_eq_true, if_false]
    rw [if_neg (not_or.mpr ⟨hown, hsys⟩), if_neg hhive]
    exact hplace

/-- The tests between the locks and the decision let the fault pass: the range does not wait
for the worker, it was not restored just before, and the VMA of the page allows the access. -/
structure RetryFault.Decides (f : RetryFault) (mm : Mm) (id : Nat) : Prop where
  recover : svmRangeSkipRecover mm id = false
  late : f.validateTimestamp id + retryFaultPending ≤ f.timestamp
  allowed : (vmaLookup f.vmas (f.addr * 4096)).any (svmFaultAllowed · f.writeFault) = true

theorem restoreRange_noAccess (h : Denied p f.devices (mm.svms.heap id) node) :
    ∃ err, (restoreRange p f node id mm).1 = (mm, [], err) ∧
      err ≠ some .eagain ∧ (err = some .eacces ↔ f.Decides mm id) := by
  unfold restoreRange
  have hbest := bestRestoreLocation_noAccess h
  cases hskip : svmRangeSkipRecover mm id with
  | true =>
    refine ⟨none, rfl, by decide, iff_of_false (by decide) fun hd => ?_⟩
    exact absurd (hskip.symm.trans hd.recover) (by decide)
  | false =>
    rw [if_neg Bool.false_ne_true]
    rcases lt_or_ge f.timestamp (f.validateTimestamp id + retryFaultPending) with hdup | hlate
    · rw [if_pos hdup]
      refine ⟨none, rfl, by decide, iff_of_false (by decide) fun hd => ?_⟩
      exact absurd hd.late hdup.not_ge
    rw [if_neg hlate.not_gt]
    cases hvma : vmaLookup f.vmas (f.addr * 4096) with
    | none =>
      refine ⟨none, rfl, by decide, iff_of_false (by decide) fun hd => ?_⟩
      have hany := hd.allowed
      rw [hvma] at hany
      exact absurd hany Bool.false_ne_true
    | some vma =>
      cases hallowed : svmFaultAllowed vma f.writeFault with
      | false =>
        refine ⟨some .eperm, by simp only [hallowed, if_true], by decide, ?_⟩
        refine iff_of_false (by decide) fun hd => ?_
        have hany := hd.allowed
        rw [hvma, Option.any_some, hallowed] at hany
        exact absurd hany (by decide)
      | true =>
        refine ⟨some .eacces, ?_, by decide, iff_of_true rfl ⟨hskip, hlate, ?_⟩⟩
        · simp only [hallowed, Bool.true_eq_false, if_false, hbest, if_true]
        · rw [hvma, Option.any_some, hallowed]

theorem RetryFault.entry_error (f : RetryFault) {r : Option Errno} (h : f.entry = .error r) :
    r ≠ some .eacces := by
  unfold RetryFault.entry at h
  rintro rfl
  split_ifs at h <;> try simp at h
  cases hnode : f.node <;> simp [hnode] at h

theorem RetryFault.entry_ok (f : RetryFault) (h : f.entry = .ok node) : f.node = some node := by
  unfold RetryFault.entry at h
  split_ifs at h
  cases hnode : f.node with
  | none => simp [hnode] at h
  | some n => simpa [hnode] using h

/-- The fault gets to the decision: no test before it ends the fault, and there is a range. -/
structure RetryFault.Reaches (f : RetryFault) (st : Account) (node : KfdNode) (id : Nat) :
    Prop where
  entry : f.entry = .ok node
  range : (faultRange f st).2 = some id
  decides : f.Decides (faultRange f st).1.mm id

/-- A retry fault of a GPU whose bit is in neither bitmap of the range, that is no APU and
cannot use the preferred location, is not answered by a migration or a mapping. It fails with
`-EACCES` when it gets to the decision, and otherwise not. -/
theorem restorePages_noAccess (f : RetryFault) (st : Account)
    (h : ∀ node id, f.node = some node → (faultRange f st).2 = some id →
      Denied (faultRange f st).1.proc f.devices ((faultRange f st).1.mm.svms.heap id) node) :
    (svmRangeRestorePages f st).calls = [] ∧
      ((svmRangeRestorePages f st).st = st ∨
        (svmRangeRestorePages f st).st = (faultRange f st).1) ∧
      ((svmRangeRestorePages f st).err = some .eacces ↔ ∃ node id, f.Reaches st node id) := by
  unfold svmRangeRestorePages
  cases hentry : f.entry with
  | error r =>
    refine ⟨rfl, .inl rfl, iff_of_false (f.entry_error hentry) ?_⟩
    rintro ⟨node, id, hr⟩
    exact absurd (hentry.symm.trans hr.entry) (by simp)
  | ok node =>
    have hnode := f.entry_ok hentry
    rcases hrange : faultRange f st with ⟨st', _ | id⟩
    · refine ⟨rfl, .inr rfl, iff_of_false (by simp) ?_⟩
      rintro ⟨node, id, hr⟩
      have hsome := hr.range
      rw [hrange] at hsome
      exact absurd hsome (by simp)
    · have hdenied := h node id hnode (by rw [hrange])
      rw [hrange] at hdenied
      obtain ⟨err, heq, hagain, hacc⟩ := restoreRange_noAccess (f := f) hdenied
      rcases hres : restoreRange st'.proc f node id st'.mm with
        ⟨⟨mm', calls, err'⟩, gpuidx, removed⟩
      rw [hres] at heq
      obtain ⟨rfl, rfl, rfl⟩ : mm' = st'.mm ∧ calls = [] ∧ err' = err := by simpa using heq
      simp only [hres, if_neg hagain, or_true, true_and]
      refine hacc.trans ⟨fun hd => ⟨node, id, hentry, ?_, ?_⟩, ?_⟩
      · rw [hrange]
      · rw [hrange]
        exact hd
      · rintro ⟨node', id', hr⟩
        have hid := hr.range
        have hd := hr.decides
        rw [hrange] at hid hd
        rwa [← some.inj hid] at hd

end NoAccess

/-! ## Examples -/

def exNoAccessProcess : Process :=
  { exValidateProcess with xnackEnabled := true, bitmapSupported := ∅ }

def exNoAccess (preferredLoc : UInt32) : Account :=
  let r := svmRangeNew exNoAccessProcess 16 31
  let r := { r with itStart := 16, itLast := 31, attrs := { r.attrs with preferredLoc } }
  { proc := exNoAccessProcess
    mm :=
      { svms := { heap := fun _ => r, next := 1, list := [0], tree := [0] }
        deferred := []
        pte := fun _ _ => false }
    reserved := 0 }

def exRetryFault (isApu draining : Bool) : RetryFault :=
  let adev := { id := 0, pgmap := true, isAppApu := false, isApu := isApu, hiveId := 0 }
  { addr := 17, xnackSeen := true, vma := none, vma_has := by simp, isHeapStack := false
    bo := none, newOk := true, gpuOk := true
    adev := adev
    node := some { id := 0, adev := adev }
    devices := { dev := fun _ => { id := 0, adev := adev }, useXgmiP2p := true }
    hasProcess := true
    hasMm := true
    draining := draining
    writeFault := true
    timestamp := 5000000
    validateTimestamp := fun _ => 0
    relocked := exNoAccess locationUndefined
    vmas := exVmas true
    migrate := fun _ mm => (mm, none)
    validate := exValidateEnv }

theorem restorePages_noAccess_exNoAccess :
    (svmRangeRestorePages (exRetryFault false false) (exNoAccess locationUndefined)).err =
      some .eacces := by
  refine (restorePages_noAccess _ _ fun node id hnode hid => ?_).2.2.mpr ?_
  · obtain rfl : node = _ := (some.inj hnode).symm
    obtain rfl : id = 0 := (some.inj hid).symm
    exact ⟨by decide, by decide, by decide, by decide⟩
  · exact ⟨_, 0, rfl, rfl, ⟨by decide, by decide, by decide⟩⟩

/-- The bit of the GPU is in neither bitmap of the range. With system memory as the preferred
location its page is mapped, and so it is on an APU. While faults are drained, the fault is
dropped without an error. -/
theorem restorePages_broken :
    (∀ isApu loc, kfdProcessGpuidFromNode exNoAccessProcess (exRetryFault isApu false).devices
        ((exRetryFault isApu false).devices.dev 0) = some (1, 0) ∧
      0 ∉ ((exNoAccess loc).mm.svms.heap 0).attrs.access ∧
      0 ∉ ((exNoAccess loc).mm.svms.heap 0).attrs.aip) ∧
      (let r := svmRangeRestorePages (exRetryFault false false) (exNoAccess locationSysmem)
       r.err = none ∧ r.calls = [.validateAndMap 0 16 31 0] ∧ r.st.mm.pte 0 17 = true) ∧
      (let r := svmRangeRestorePages (exRetryFault true false) (exNoAccess locationUndefined)
       r.err = none ∧ r.calls = [.validateAndMap 0 16 31 0] ∧ r.st.mm.pte 0 17 = true) ∧
      (svmRangeRestorePages (exRetryFault false true) (exNoAccess locationUndefined)).err =
        none := by
  refine ⟨fun isApu loc => ⟨?_, Finset.notMem_empty _, Finset.notMem_empty _⟩,
    ⟨by decide, by decide, by decide⟩,
    ⟨by decide, by decide, by decide⟩, by decide⟩
  cases isApu <;> decide

end Amdkfd.Svm.RestorePages

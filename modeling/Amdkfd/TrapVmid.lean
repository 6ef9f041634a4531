import Amdkfd.Lib.Bitmap
import Amdkfd.QueueManager.Model

/-!
# The VMID of the trap debugger

`reserve_debug_trap_vmid` and `release_debug_trap_vmid` of `kfd_device_queue_manager.c` take the
last VMID of a node away from the scheduler and give it back. They change the bitmap of the shared
resources; `set_sched_resources` sends that of the node, which nothing changes. What has been
recorded is not undone when a later step fails.
-/

namespace Amdkfd.TrapVmid

open Lib QueueManager

/-! ## The VMIDs of a node -/

/-- `vm_info.last_vmid_kfd` and `compute_vmid_bitmap` of a node. -/
structure VmInfo where
  lastVmidKfd : Nat
  computeVmidBitmap : BitVec 32
  last_pos : 0 < lastVmidKfd
  last_mem : computeVmidBitmap.getLsbD lastVmidKfd = true

/-- The VMIDs from `first` to `last`. -/
def vmidBitmap (first last : Nat) : BitVec 32 :=
  (1#32 <<< (last + 1) - 1) - (1#32 <<< first - 1)

/-- The VMIDs that `kgd2kfd_device_init` gives to a node. They begin at `firstKfdVmid`; in CPX mode
two nodes share them, and `odd` tells which of the two it is. -/
def nodeVmInfo (firstKfdVmid : Fin 15) (cpx odd : Bool) : VmInfo :=
  let num := (16 - firstKfdVmid.val) / 2
  let first := if cpx then (if odd then 16 - num * 2 + num else 16 - num * 2) else firstKfdVmid.val
  let last := if cpx && !odd then 15 - num else 15
  { lastVmidKfd := last
    computeVmidBitmap := vmidBitmap first last
    last_pos := by revert firstKfdVmid cpx odd; decide
    last_mem := by revert firstKfdVmid cpx odd; decide }

/-! ## The manager -/

/-- What `set_sched_resources` reads of the shared resources of a device. -/
structure SharedResources where
  computeVmidBitmap : BitVec 32
  numQueuePerPipe : Nat
  numPipePerMec : Nat
  cpQueueBitmap : Bitmap

/-- A queue manager with the resources of its node and its device, and the `vmid_mask` of the last
packet that `set_sched_resources` has sent. -/
structure TrapManager where
  noHws : Bool
  dqm : Dqm
  trapDebugVmid : Nat
  vmInfo : VmInfo
  shared : SharedResources
  sent : Option (BitVec 32)

def queueMaskBitToSetResourceBit (r : SharedResources) (bit : Nat) : Nat :=
  let mec := bit / r.numQueuePerPipe / r.numPipePerMec
  let pipe := bit / r.numQueuePerPipe % r.numPipePerMec
  let queue := bit % r.numQueuePerPipe
  mec * 4 * 8 + pipe * 8 + queue

/-- The queues of the first MEC, up to the first one from 64 on. -/
def queueMask (r : SharedResources) : BitVec 64 :=
  let queues := (List.range 128).filter fun i =>
    i ∈ r.cpQueueBitmap ∧ i / r.numQueuePerPipe / r.numPipePerMec = 0
  (queues.takeWhile (· < 64)).foldl
    (fun mask i => mask ||| 1#64 <<< queueMaskBitToSetResourceBit r i) 0

structure SchedulingResources where
  vmidMask : BitVec 32
  queueMask : BitVec 64
  gwsMask : BitVec 64

def TrapManager.schedResources (s : TrapManager) : SchedulingResources :=
  { vmidMask := s.vmInfo.computeVmidBitmap
    queueMask := queueMask s.shared
    gwsMask := BitVec.allOnes 64 }

def setSchedResources (answer : Option Errno) (s : TrapManager) : TrapManager × Option Errno :=
  match answer with
  | some e => (s, some e)
  | none => ({ s with sent := some s.schedResources.vmidMask }, none)

/-- The end of both requests: the resources, then the queues. -/
def resendAndMap (hw : Hw) (answer : Option Errno) (s : TrapManager) : TrapManager × Option Errno :=
  match setSchedResources answer s with
  | (s, some e) => (s, some e)
  | (s, none) =>
    let r := mapQueuesCpsch hw s.dqm
    ({ s with dqm := r.1 }, r.2)

def reserveDebugTrapVmid (hw : Hw) (answer : Option Errno) (s : TrapManager) :
    TrapManager × Option Errno :=
  if s.noHws then (s, some .einval)
  else if s.trapDebugVmid ≠ 0 then (s, some .ebusy)
  else
    let r := unmapQueuesCpsch hw s.dqm
    let s := { s with dqm := r.1 }
    match r.2 with
    | some e => (s, some e)
    | none =>
      let mask := s.shared.computeVmidBitmap &&& ~~~(1#32 <<< s.vmInfo.lastVmidKfd)
      resendAndMap hw answer
        { s with
          shared := { s.shared with computeVmidBitmap := mask }
          trapDebugVmid := s.vmInfo.lastVmidKfd }

def releaseDebugTrapVmid (hw : Hw) (answer : Option Errno) (s : TrapManager) :
    TrapManager × Option Errno :=
  if s.noHws then (s, some .einval)
  else if s.trapDebugVmid = 0 then (s, some .einval)
  else
    let r := unmapQueuesCpsch hw s.dqm
    let s := { s with dqm := r.1 }
    match r.2 with
    | some e => (s, some e)
    | none =>
      let mask := s.shared.computeVmidBitmap ||| 1#32 <<< s.vmInfo.lastVmidKfd
      resendAndMap hw answer
        { s with
          shared := { s.shared with computeVmidBitmap := mask }
          trapDebugVmid := 0 }

/-- `start_cpsch`. `pmInit` and `fence` are the outcome of `pm_init` and of the allocation of the
fence. -/
def startScheduler (hw : Hw) (pmInit answer fence : Option Errno) (s : TrapManager) :
    TrapManager × Option Errno :=
  let r :=
    if s.dqm.enableMes then (s, none)
    else
      match pmInit with
      | some e => (s, some e)
      | none => setSchedResources answer s
  match r.2.or fence with
  | some e => (r.1, some e)
  | none => ({ r.1 with dqm := startCpsch hw r.1.dqm }, none)

/-- A request to the manager. All others leave the VMIDs alone; `other` is what they make of the
rest. -/
inductive Op
  | reserve (hw : Hw) (answer : Option Errno)
  | release (hw : Hw) (answer : Option Errno)
  | start (hw : Hw) (pmInit answer fence : Option Errno)
  | other (dqm : Dqm)

/-- The manager after a request, with the error that it returns. -/
def opResult (s : TrapManager) : Op → TrapManager × Option Errno
  | .reserve hw answer => reserveDebugTrapVmid hw answer s
  | .release hw answer => releaseDebugTrapVmid hw answer s
  | .start hw pmInit answer fence => startScheduler hw pmInit answer fence s
  | .other dqm => ({ s with dqm := dqm }, none)

def step (s : TrapManager) (op : Op) : TrapManager :=
  (opResult s op).1

/-! ## What is asked of a request -/

def TrapManager.Excluded (s : TrapManager) : Prop :=
  s.trapDebugVmid ≠ 0 → ∀ mask ∈ s.sent, mask.getLsbD s.trapDebugVmid = false

def Op.OfTrap : Op → Prop
  | .reserve _ _ => True
  | .release _ _ => True
  | _ => False

def Op.Releases : Op → Prop
  | .release _ _ => True
  | _ => False

/-- After the request, a recorded VMID is not in the mask that was sent last; a release that
succeeds has sent one with the VMID in it; and a reserve or release that fails leaves the recorded
VMID and the mask for later packets as they were. -/
structure Right (s : TrapManager) (op : Op) : Prop where
  excluded : (step s op).Excluded
  released : op.Releases → (opResult s op).2 = none →
    ∃ mask ∈ (step s op).sent, mask.getLsbD s.trapDebugVmid = true
  undone : op.OfTrap → (opResult s op).2 ≠ none →
    (step s op).trapDebugVmid = s.trapDebugVmid ∧
      (step s op).schedResources.vmidMask = s.schedResources.vmidMask

/-- A reserve is refused or fails to unmap the queues, a release does so as well or has no failure
afterwards, and no start of the scheduler sends the resources while a VMID is recorded. -/
def Harmless (s : TrapManager) : Op → Prop
  | .reserve hw _ =>
    s.noHws = true ∨ s.trapDebugVmid ≠ 0 ∨ (unmapQueuesCpsch hw s.dqm).2 ≠ none
  | .release hw answer =>
    (s.noHws = true ∨ s.trapDebugVmid = 0 ∨ (unmapQueuesCpsch hw s.dqm).2 ≠ none) ∨
      answer = none ∧ (mapQueuesCpsch hw (unmapQueuesCpsch hw s.dqm).1).2 = none
  | .start _ pmInit answer _ =>
    s.trapDebugVmid = 0 ∨ s.dqm.enableMes = true ∨ pmInit ≠ none ∨ answer ≠ none
  | .other _ => True

instance (s : TrapManager) (op : Op) : Decidable (Harmless s op) := by
  unfold Harmless
  split <;> infer_instance

/-- The invariant: the recorded VMID is the last one of the node, and it is not in the mask that
was sent last. -/
structure TrapManager.Settled (s : TrapManager) : Prop where
  recorded : s.trapDebugVmid = 0 ∨ s.trapDebugVmid = s.vmInfo.lastVmidKfd
  excluded : s.Excluded

/-! ## The requests -/

section Requests
variable {s : TrapManager} {hw : Hw} {answer : Option Errno}

/-- The resources are sent when the packet manager takes them, and the recorded VMID stays. -/
theorem resendAndMap_spec (hw : Hw) (answer : Option Errno) (s : TrapManager) :
    ∃ dqm, (resendAndMap hw answer s).1 =
        { s with
          dqm := dqm
          sent := if answer = none then some s.vmInfo.computeVmidBitmap else s.sent } ∧
      ((resendAndMap hw answer s).2 = none ↔
        answer = none ∧ (mapQueuesCpsch hw s.dqm).2 = none) := by
  cases answer with
  | some e => exact ⟨s.dqm, rfl, by simp [resendAndMap, setSchedResources]⟩
  | none => exact ⟨(mapQueuesCpsch hw s.dqm).1, rfl, by simp [resendAndMap, setSchedResources]⟩

/-- What both requests do: `refused` and `e` are the state in which the request makes no sense and
its error, `mask` and `vmid` what is recorded. -/
def request (hw : Hw) (answer : Option Errno) (refused : Prop) [Decidable refused] (e : Errno)
    (mask : BitVec 32) (vmid : Nat) (s : TrapManager) : TrapManager × Option Errno :=
  if s.noHws then (s, some .einval)
  else if refused then (s, some e)
  else
    let r := unmapQueuesCpsch hw s.dqm
    let s := { s with dqm := r.1 }
    match r.2 with
    | some e => (s, some e)
    | none =>
      resendAndMap hw answer
        { s with shared := { s.shared with computeVmidBitmap := mask }, trapDebugVmid := vmid }

theorem reserveDebugTrapVmid_eq : reserveDebugTrapVmid hw answer s =
    request hw answer (s.trapDebugVmid ≠ 0) .ebusy
      (s.shared.computeVmidBitmap &&& ~~~(1#32 <<< s.vmInfo.lastVmidKfd)) s.vmInfo.lastVmidKfd s :=
  rfl

theorem releaseDebugTrapVmid_eq : releaseDebugTrapVmid hw answer s =
    request hw answer (s.trapDebugVmid = 0) .einval
      (s.shared.computeVmidBitmap ||| 1#32 <<< s.vmInfo.lastVmidKfd) 0 s :=
  rfl

section
variable (answer : Option Errno) {refused : Prop} [Decidable refused] {err : Errno}
  {mask : BitVec 32} {vmid : Nat}

theorem request_refused
    (h : s.noHws = true ∨ refused ∨ (unmapQueuesCpsch hw s.dqm).2 ≠ none) :
    ∃ dqm e, request hw answer refused err mask vmid s = ({ s with dqm := dqm }, some e) := by
  unfold request
  by_cases hpolicy : s.noHws = true
  · exact ⟨s.dqm, .einval, if_pos hpolicy⟩
  rw [if_neg hpolicy]
  by_cases hno : refused
  · exact ⟨s.dqm, err, if_pos hno⟩
  rw [if_neg hno]
  cases hunmap : (unmapQueuesCpsch hw s.dqm).2 with
  | some e => exact ⟨(unmapQueuesCpsch hw s.dqm).1, e, by simp only [hunmap]⟩
  | none => exact absurd hunmap ((h.resolve_left hpolicy).resolve_left hno)

theorem request_recorded
    (h : ¬(s.noHws = true ∨ refused ∨ (unmapQueuesCpsch hw s.dqm).2 ≠ none)) :
    ∃ dqm shared, (request hw answer refused err mask vmid s).1 =
        { s with
          dqm := dqm
          shared := shared
          trapDebugVmid := vmid
          sent := if answer = none then some s.vmInfo.computeVmidBitmap else s.sent } ∧
      ((request hw answer refused err mask vmid s).2 = none ↔
        answer = none ∧ (mapQueuesCpsch hw (unmapQueuesCpsch hw s.dqm).1).2 = none) := by
  simp only [not_or, not_not] at h
  obtain ⟨hpolicy, hno, hunmap⟩ := h
  unfold request
  rw [if_neg hpolicy, if_neg hno]
  simp only [hunmap]
  obtain ⟨dqm, hst, hr⟩ := resendAndMap_spec hw answer
    { s with
      dqm := (unmapQueuesCpsch hw s.dqm).1
      shared := { s.shared with computeVmidBitmap := mask }
      trapDebugVmid := vmid }
  exact ⟨dqm, _, hst, hr⟩

end

theorem right_of_eq {op : Op} {dqm : Dqm} (hs : s.Settled) (hst : step s op = { s with dqm := dqm })
    (hfails : op.Releases → (opResult s op).2 ≠ none) : Right s op where
  excluded := by
    rw [hst]
    exact hs.excluded
  released hop hnone := absurd hnone (hfails hop)
  undone _ _ := by
    rw [hst]
    exact ⟨rfl, rfl⟩

theorem reserve_right_iff (hs : s.Settled) :
    Right s (.reserve hw answer) ↔ Harmless s (.reserve hw answer) := by
  constructor
  · intro h
    by_contra hgo
    obtain ⟨dqm, shared, hst, hnone⟩ := request_recorded answer hgo
    have hst : step s (.reserve hw answer) = _ := hst
    have hfree : s.trapDebugVmid = 0 := by
      by_contra htaken
      exact hgo (.inr (.inl htaken))
    cases hr : (opResult s (.reserve hw answer)).2 with
    | none =>
      -- the mask of the node was sent, and it has the VMID
      have hmask := h.excluded
      rw [hst, if_pos (hnone.mp hr).1] at hmask
      have hout : s.vmInfo.computeVmidBitmap.getLsbD s.vmInfo.lastVmidKfd = false :=
        hmask s.vmInfo.last_pos.ne' _ rfl
      exact absurd (s.vmInfo.last_mem.symm.trans hout) (by decide)
    | some e =>
      have hsame := (h.undone trivial (by simp [hr])).1
      rw [hst, hfree] at hsame
      exact s.vmInfo.last_pos.ne' hsame
  · intro h
    obtain ⟨dqm, e, heq⟩ := request_refused answer h
    exact right_of_eq hs (congrArg Prod.fst heq) fun hop => hop.elim

theorem release_right_iff (hs : s.Settled) :
    Right s (.release hw answer) ↔ Harmless s (.release hw answer) := by
  by_cases hrefused : s.noHws = true ∨ s.trapDebugVmid = 0 ∨ (unmapQueuesCpsch hw s.dqm).2 ≠ none
  · obtain ⟨dqm, e, heq⟩ := request_refused answer hrefused
    refine iff_of_true (right_of_eq hs (congrArg Prod.fst heq) fun _ => ?_) (.inl hrefused)
    rw [show opResult s (.release hw answer) = _ from heq]
    exact Option.some_ne_none e
  · obtain ⟨dqm, shared, hst, hnone⟩ := request_recorded answer hrefused
    have hst : step s (.release hw answer) = _ := hst
    have htaken : s.trapDebugVmid ≠ 0 := fun hfree => hrefused (.inr (.inl hfree))
    constructor
    · intro h
      refine .inr (hnone.mp ?_)
      by_contra hfails
      have hsame := (h.undone trivial hfails).1
      rw [hst] at hsame
      exact htaken hsame.symm
    · rintro (h | h)
      · exact absurd h hrefused
      refine ⟨fun hne => absurd (by rw [hst]) hne, fun _ _ => ?_,
        fun _ hfails => absurd (hnone.mpr h) hfails⟩
      rw [hst, if_pos h.1]
      refine ⟨_, rfl, ?_⟩
      rw [hs.recorded.resolve_left htaken]
      exact s.vmInfo.last_mem

theorem start_spec (hw : Hw) (pmInit answer fence : Option Errno) (s : TrapManager) :
    ∃ dqm, step s (.start hw pmInit answer fence) =
      { s with
        dqm := dqm
        sent :=
          if s.dqm.enableMes = true ∨ pmInit ≠ none ∨ answer ≠ none then s.sent
          else some s.vmInfo.computeVmidBitmap } := by
  show ∃ dqm, (startScheduler hw pmInit answer fence s).1 = _
  unfold startScheduler
  cases hmes : s.dqm.enableMes with
  | true =>
    cases fence with
    | some e => exact ⟨s.dqm, by simp⟩
    | none => exact ⟨startCpsch hw s.dqm, by simp⟩
  | false =>
    cases pmInit with
    | some e => exact ⟨s.dqm, by simp⟩
    | none =>
      cases answer with
      | some e => exact ⟨s.dqm, by simp [setSchedResources]⟩
      | none =>
        cases fence with
        | some e => exact ⟨s.dqm, by simp [setSchedResources, TrapManager.schedResources]⟩
        | none =>
          exact ⟨startCpsch hw s.dqm, by simp [setSchedResources, TrapManager.schedResources]⟩

theorem start_right_iff (hs : s.Settled) (pmInit fence : Option Errno) :
    Right s (.start hw pmInit answer fence) ↔ Harmless s (.start hw pmInit answer fence) := by
  obtain ⟨dqm, hst⟩ := start_spec hw pmInit answer fence s
  constructor
  · intro h
    by_contra hgo
    obtain ⟨htaken, hsent⟩ := not_or.mp hgo
    have hmask := h.excluded
    rw [hst, if_neg hsent] at hmask
    have hout : s.vmInfo.computeVmidBitmap.getLsbD s.trapDebugVmid = false := hmask htaken _ rfl
    rw [hs.recorded.resolve_left htaken, s.vmInfo.last_mem] at hout
    exact absurd hout (by decide)
  · intro h
    refine ⟨?_, fun hop => hop.elim, fun hop => hop.elim⟩
    rw [hst]
    intro htaken mask hmask
    rw [if_pos (h.resolve_left htaken)] at hmask
    exact hs.excluded htaken mask hmask

end Requests

/-! ## Runs -/

variable {s : TrapManager}

theorem right_iff (hs : s.Settled) (op : Op) : Right s op ↔ Harmless s op := by
  cases op with
  | reserve hw answer => exact reserve_right_iff hs
  | release hw answer => exact release_right_iff hs
  | start hw pmInit answer fence => exact start_right_iff hs pmInit fence
  | other dqm => exact iff_of_true (right_of_eq hs rfl fun hop => hop.elim) trivial

theorem step_recorded (hs : s.Settled) (op : Op) :
    (step s op).trapDebugVmid = 0 ∨ (step s op).trapDebugVmid = (step s op).vmInfo.lastVmidKfd := by
  cases op with
  | reserve hw answer =>
    by_cases hrefused : s.noHws = true ∨ s.trapDebugVmid ≠ 0 ∨ (unmapQueuesCpsch hw s.dqm).2 ≠ none
    · obtain ⟨dqm, e, heq⟩ := request_refused answer hrefused
      rw [show step s (.reserve hw answer) = _ from congrArg Prod.fst heq]
      exact hs.recorded
    · obtain ⟨dqm, shared, hst, -⟩ := request_recorded answer hrefused
      rw [show step s (.reserve hw answer) = _ from hst]
      exact .inr rfl
  | release hw answer =>
    by_cases hrefused : s.noHws = true ∨ s.trapDebugVmid = 0 ∨ (unmapQueuesCpsch hw s.dqm).2 ≠ none
    · obtain ⟨dqm, e, heq⟩ := request_refused answer hrefused
      rw [show step s (.release hw answer) = _ from congrArg Prod.fst heq]
      exact hs.recorded
    · obtain ⟨dqm, shared, hst, -⟩ := request_recorded answer hrefused
      rw [show step s (.release hw answer) = _ from hst]
      exact .inl rfl
  | start hw pmInit answer fence =>
    obtain ⟨dqm, hst⟩ := start_spec hw pmInit answer fence s
    rw [hst]
    exact hs.recorded
  | other dqm => exact hs.recorded

theorem settled_step (hs : s.Settled) {op : Op} (hop : Harmless s op) : (step s op).Settled :=
  ⟨step_recorded hs op, ((right_iff hs op).mpr hop).excluded⟩

/-- In every run, from any state in which the recorded VMID is the last of the node and not in the
mask that was sent last, all requests are right if and only if all of them are harmless. -/
theorem trapVmid_right_iff (s : TrapManager) (hs : s.Settled) (ops : List Op) :
    StepsOk step Right s ops ↔ StepsOk step Harmless s ops :=
  stepsOk_congr (fun _ op hs => right_iff hs op)
    (fun (s : TrapManager) _ (hs : s.Settled) hop => settled_step hs hop) hs ops

def exManager : TrapManager :=
  { noHws := false
    dqm :=
      { enableMes := false, maxQueues := 16, schedRunning := true, isHwsHang := false
        isResetting := false, activeRunlist := true, queues := [0], processesCount := 1
        activeQueueCount := 1, activeCpQueueCount := 1, gwsQueueCount := 0, totalQueueCount := 1 }
    trapDebugVmid := 0
    vmInfo := nodeVmInfo 8 false false
    shared :=
      { computeVmidBitmap := 0xff00, numQueuePerPipe := 8, numPipePerMec := 4
        cpQueueBitmap := {0, 1} }
    sent := some 0xff00 }

theorem exManager_settled : exManager.Settled :=
  ⟨.inl rfl, fun hne => absurd rfl hne⟩

/-- The queues cannot be unmapped for the first reserve, and there is nothing to release. -/
theorem trapVmid_right_exManager : StepsOk step Right exManager
    [.reserve { Hw.good with sendUnmap := some .enomem } none, .release Hw.good none] :=
  (trapVmid_right_iff exManager exManager_settled _).mpr (by decide)

/-- A reserve that succeeds records the VMID 15, and the mask that it has sent has this VMID. One
whose queues cannot be mapped again fails and has recorded it as well. -/
theorem trapVmid_broken :
    (let op := Op.reserve Hw.good none
     ¬Right exManager op ∧ (opResult exManager op).2 = none ∧
      (step exManager op).trapDebugVmid = 15 ∧ (step exManager op).sent = some 0xff00) ∧
    (let op := Op.reserve { Hw.good with sendRunlist := some .enomem } none
     ¬Right exManager op ∧ (opResult exManager op).2 = some .enomem ∧
      (step exManager op).trapDebugVmid = 15) :=
  ⟨⟨(right_iff exManager_settled _).not.mpr (by decide), by decide⟩,
    (right_iff exManager_settled _).not.mpr (by decide), by decide⟩

end Amdkfd.TrapVmid

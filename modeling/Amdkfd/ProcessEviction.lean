import Amdkfd.QueueManager.Parked
import Amdkfd.Lib.Count

/-!
# Nested evictions of a process

`kfd_process_evict_queues` and `kfd_process_restore_queues` walk the devices of
a process and evict or restore its queues on each. Several sources do so
independently (TTM evictions and `restore_process_worker`, SVM, suspend and
reset, checkpointing), and each device call holds that device's lock only, so
the walks of different sources interleave device by device. `qpd->evicted`
counts the evictions of a process on a device.
-/

namespace Amdkfd.Eviction

open Lib QueueManager List

/-! ## Model -/

/-- The answers of a device to one call: those of the hardware scheduler, or,
without one, the results of loading and unloading the MQD of each queue and
whether the process still has an address space. -/
structure Answers where
  hw : Hw
  destroyMqd : Nat → Option Errno
  loadMqd : Nat → Option Errno
  taskMm : Bool

def Answers.good : Answers :=
  { hw := .good, destroyMqd := fun _ => none, loadMqd := fun _ => none, taskMm := true }

/-- `struct kfd_process_device`, with the queue manager of its device. `cpsch`
tells whether the device has a hardware scheduler. -/
structure Pdd where
  cpsch : Bool
  ctx : Ctx
  deriving DecidableEq, Repr

/-- The body of the queue loop of `evict_process_queues_nocpsch`. -/
def evictQueueNocpsch (a : Answers) (s : Ctx × Option Errno) (i : Nat) : Ctx × Option Errno :=
  match s.1.qpd.queues[i]? with
  | none => s
  | some q =>
    if q.isActive then
      let c := decrementQueueCount
        (s.1.setQueue (.listed i) { q with isEvicted := true, isActive := false }) q.type q.isGws
      if c.dqm.schedRunning = false then (c, s.2)
      else (c, s.2.or (a.destroyMqd i))
    else (s.1.setQueue (.listed i) { q with isEvicted := true }, s.2)

def evictProcessQueuesNocpsch (a : Answers) (c : Ctx) : Ctx × Option Errno :=
  let evicted := c.qpd.evicted
  let c : Ctx := { c with qpd := { c.qpd with evicted := evicted + 1 } }
  if 0 < evicted then (c, none)
  else (range c.qpd.queues.length).foldl (evictQueueNocpsch a) (c, none)

/-- The body of the queue loop of `restore_process_queues_nocpsch`. -/
def restoreQueueNocpsch (a : Answers) (s : Ctx × Option Errno) (i : Nat) : Ctx × Option Errno :=
  match s.1.qpd.queues[i]? with
  | none => s
  | some q =>
    let q := { q with isEvicted := false }
    if queueIsActive q then
      let c := incrementQueueCount (s.1.setQueue (.listed i) { q with isActive := true })
        q.type q.isGws
      if c.dqm.schedRunning = false then (c, s.2)
      else (c, s.2.or (a.loadMqd i))
    else (s.1.setQueue (.listed i) q, s.2)

def restoreProcessQueuesNocpsch (a : Answers) (c : Ctx) : Ctx × Option Errno :=
  if c.qpd.evicted = 0 then (c, none)
  else if 1 < c.qpd.evicted then
    ({ c with qpd := { c.qpd with evicted := c.qpd.evicted - 1 } }, none)
  else if a.taskMm = false then (c, some .efault)
  else
    let s := (range c.qpd.queues.length).foldl (restoreQueueNocpsch a) (c, none)
    ({ s.1 with qpd := { s.1.qpd with evicted := 0 } }, s.2)

/-- `dqm->ops.evict_process_queues`. -/
def evictProcessQueues (a : Answers) (pdd : Pdd) : Pdd × Option Errno :=
  let r :=
    if pdd.cpsch then evictProcessQueuesCpsch a.hw pdd.ctx
    else evictProcessQueuesNocpsch a pdd.ctx
  ({ pdd with ctx := r.1 }, r.2)

/-- `dqm->ops.restore_process_queues`. -/
def restoreProcessQueues (a : Answers) (pdd : Pdd) : Pdd × Option Errno :=
  let r :=
    if pdd.cpsch then restoreProcessQueuesCpsch a.hw pdd.ctx
    else restoreProcessQueuesNocpsch a pdd.ctx
  ({ pdd with ctx := r.1 }, r.2)

/-- Where a source stands: it holds no eviction; it is in the loop of
`kfd_process_evict_queues` and comes to device `i`, or in the loop that rolls
back the first devices; it holds an eviction; it is in the loop of
`kfd_process_restore_queues` with the first error so far; or it evicted one
device only, as `kfd_dqm_evict_pasid` does. -/
inductive Phase
  | idle
  | evicting (i : Nat)
  | rollingBack (i nEvicted : Nat)
  | held
  | restoring (i : Nat) (ret : Option Errno)
  | heldOn (i : Nat)
  deriving DecidableEq, Repr

structure Proc where
  pdds : List Pdd
  sources : List Phase
  deriving DecidableEq, Repr

inductive Act
  /-- A source without an eviction calls `kfd_process_evict_queues`. -/
  | evict (src : Nat)
  /-- A source that holds an eviction calls `kfd_process_restore_queues`, for
  the first time or again. -/
  | restore (src : Nat)
  /-- The source's call goes on with its next device, or returns. -/
  | advance (src : Nat) (a : Answers)
  /-- `kfd_dqm_evict_pasid`. -/
  | evictPasid (src i : Nat) (a : Answers)
  /-- A queue operation on a device with a hardware scheduler. -/
  | queueOp (i pid : Nat) (op : ProcOp)
  /-- `dqm->ops.start`. Without a hardware scheduler it can fail on its packet manager. -/
  | start (i : Nat) (hw : Hw) (ok : Bool)
  /-- `dqm->ops.stop`. -/
  | stop (i : Nat) (hw : Hw) (mesRemove : Option Errno)
  /-- `dqm->ops.pre_reset`. -/
  | preReset (i : Nat)

/-- The device call of `src` at device `i`, and the phase it leaves. -/
def Proc.call (p : Proc) (src i : Nat) (f : Pdd → Pdd × Option Errno)
    (next : Option Errno → Phase) : Proc :=
  match p.pdds[i]? with
  | none => p
  | some pdd =>
    { pdds := p.pdds.set i (f pdd).1
      sources := p.sources.set src (next (f pdd).2) }

/-- One more device of the loops of `kfd_process_evict_queues` and
`kfd_process_restore_queues`, or their return. An eviction that fails with an
error other than `-EIO` rolls back the devices before the failing one. A
restore that failed leaves its source holding the eviction. -/
def Proc.advance (p : Proc) (src : Nat) (a : Answers) : Phase → Proc
  | .evicting i =>
    if i < p.pdds.length then
      p.call src i (evictProcessQueues a) fun r =>
        if r = none ∨ r = some .eio then .evicting (i + 1) else .rollingBack 0 i
    else { p with sources := p.sources.set src .held }
  | .rollingBack i nEvicted =>
    if nEvicted = 0 ∨ p.pdds.length ≤ i then { p with sources := p.sources.set src .idle }
    else p.call src i (restoreProcessQueues a) fun _ => .rollingBack (i + 1) (nEvicted - 1)
  | .restoring i ret =>
    if i < p.pdds.length then
      p.call src i (restoreProcessQueues a) fun r => .restoring (i + 1) (ret.or r)
    else { p with sources := p.sources.set src (if ret = none then .idle else .held) }
  | .idle => p
  | .held => p
  | .heldOn _ => p

/-- A call to the scheduler of device `i` that leaves the queues alone. -/
def Proc.sched (p : Proc) (i : Nat) (f : Pdd → Dqm) : Proc :=
  { p with
    pdds := p.pdds.modify i fun pdd => { pdd with ctx := { pdd.ctx with dqm := f pdd } } }

def act (p : Proc) : Act → Proc
  | .evict src =>
    if p.sources[src]? = some .idle then { p with sources := p.sources.set src (.evicting 0) }
    else p
  | .restore src =>
    if p.sources[src]? = some .held then
      { p with sources := p.sources.set src (.restoring 0 none) }
    else p
  | .advance src a =>
    match p.sources[src]? with
    | none => p
    | some phase => p.advance src a phase
  | .evictPasid src i a =>
    if p.sources[src]? = some .idle then
      p.call src i (evictProcessQueues a) fun _ => .heldOn i
    else p
  | .queueOp i pid op =>
    match p.pdds[i]? with
    | none => p
    | some pdd =>
      if pdd.cpsch ∧ op.IsQueueOp pdd.ctx.qpd then
        { p with pdds := p.pdds.set i { pdd with ctx := op.apply pid pdd.ctx } }
      else p
  | .start i hw ok =>
    p.sched i fun pdd =>
      if pdd.cpsch then startCpsch hw pdd.ctx.dqm
      else if ok then { pdd.ctx.dqm with schedRunning := true }
      else pdd.ctx.dqm
  | .stop i hw mesRemove =>
    p.sched i fun pdd =>
      if pdd.cpsch then stopCpsch hw mesRemove pdd.ctx.dqm
      else { pdd.ctx.dqm with schedRunning := false }
  | .preReset i => p.sched i fun pdd => { pdd.ctx.dqm with isResetting := true }

/-! ## The evictions that cover a device -/

/-- The evictions of a source that cover device `j`. A source that is in the
middle of a walk covers the devices it has evicted or has still to restore; a
restore that has failed on a device does not count as undone. -/
def Phase.covers (j : Nat) : Phase → Nat
  | .idle => 0
  | .evicting i => if j < i then 1 else 0
  | .rollingBack i nEvicted => if i ≤ j ∧ j < i + nEvicted then 1 else 0
  | .held => 1
  | .restoring i ret => if i ≤ j ∨ ret.isSome then 1 else 0
  | .heldOn i => if j = i then 1 else 0

/-- The number of evictions of device `j` that are not undone. -/
def Proc.outstanding (p : Proc) (j : Nat) : Nat :=
  (p.sources.map (Phase.covers j)).sum

/-- The counter of each device is the number of evictions that are not undone, and a
queue is active only where no source holds one. -/
def Proc.Nests (p : Proc) : Prop :=
  ∀ j pdd, p.pdds[j]? = some pdd → pdd.ctx.qpd.evicted = p.outstanding j ∧
    ∀ q ∈ pdd.ctx.qpd.queues, q.isActive = true → ∀ phase ∈ p.sources, phase.covers j = 0

/-! ## Device calls that do not fail -/

/-- An answer that `kfd_process_evict_queues` does not take for a failure. -/
def Tolerated (r : Option Errno) : Prop :=
  r = none ∨ r = some .eio
  deriving Decidable

/-- The requests of an eviction succeed, or are refused with `-EIO`. -/
def EvictOk (a : Answers) (pdd : Pdd) : Prop :=
  pdd.ctx.qpd.evicted = 0 →
    if pdd.cpsch then
      if pdd.ctx.dqm.enableMes then
        ∀ i < pdd.ctx.qpd.queues.length, Tolerated (a.hw.removeHwQueue i)
      else Tolerated a.hw.sendUnmap ∧ a.hw.preempted = true ∧ Tolerated a.hw.sendRunlist
    else ∀ i < pdd.ctx.qpd.queues.length, Tolerated (a.destroyMqd i)

/-- The requests of a restore succeed: MES takes each queue that becomes
active, the scheduler takes the run list, or each MQD is loaded. -/
def RestoreOk (a : Answers) (pdd : Pdd) : Prop :=
  pdd.ctx.qpd.evicted = 1 →
    if pdd.cpsch then
      if pdd.ctx.dqm.enableMes then
        ∀ i : Fin pdd.ctx.qpd.queues.length,
          queueIsActive { pdd.ctx.qpd.queues.get i with isEvicted := false } = true →
            pdd.ctx.dqm.isHwsHang = false ∧
            ((pdd.ctx.qpd.queues.get i).type = .compute ∨
              (pdd.ctx.qpd.queues.get i).type = .sdma) ∧
            a.hw.addHwQueue i = none
      else
        pdd.ctx.dqm.isHwsHang = false ∧
        (pdd.ctx.dqm.schedRunning = true → pdd.ctx.dqm.isResetting = false) ∧
        a.hw.sendUnmap = none ∧ a.hw.preempted = true ∧ a.hw.sendRunlist = none
    else a.taskMm = true ∧ ∀ i < pdd.ctx.qpd.queues.length, a.loadMqd i = none

instance (a : Answers) (pdd : Pdd) : Decidable (EvictOk a pdd) := by
  unfold EvictOk; infer_instance

instance (a : Answers) (pdd : Pdd) : Decidable (RestoreOk a pdd) := by
  unfold RestoreOk; infer_instance

/-! ## One device -/

section Device
variable {n : Nat}

variable {i : Nat} {s : Ctx × Option Errno} {pdd : Pdd} {hw : Hw} {a : Answers} {c0 : Ctx}

theorem evictQueueNocpsch_evictedBelow (a : Answers) {qpd0 : Qpd}
    (h : s.1.qpd.EvictedBelow i qpd0) :
    (evictQueueNocpsch a s i).1.qpd.EvictedBelow (i + 1) qpd0 := by
  unfold evictQueueNocpsch
  split
  · next hnone => exact h.skip hnone
  · next q hq =>
    split
    · simp only
      split
      · exact h.park (q := { q with isEvicted := true, isActive := false }) ⟨rfl, rfl⟩ rfl rfl rfl
      · exact h.park (q := { q with isEvicted := true, isActive := false }) ⟨rfl, rfl⟩ rfl rfl rfl
    · next hactive =>
      exact h.park (q := { q with isEvicted := true }) ⟨rfl, by simpa using hactive⟩ rfl rfl rfl

theorem evictProcessQueues_parked (a : Answers) (h : pdd.ctx.qpd.Parked n) :
    (evictProcessQueues a pdd).1.ctx.qpd.Parked (n + 1) := by
  unfold evictProcessQueues
  cases pdd.cpsch with
  | true => exact evictProcessQueuesCpsch_parked a.hw h
  | false =>
    have hevicted := h.evicted
    simp only [Bool.false_eq_true, if_false]
    unfold evictProcessQueuesNocpsch
    simp only
    split
    · next hpos => exact ⟨by simp [hevicted], fun _ => h.quiet (hevicted ▸ hpos), h.vm⟩
    · have hloop := foldl_range_inv (f := evictQueueNocpsch a)
        (P := fun i s => s.1.qpd.EvictedBelow i
          { pdd.ctx.qpd with evicted := pdd.ctx.qpd.evicted + 1 })
        (fun i s hs => evictQueueNocpsch_evictedBelow a hs)
        (s := ({ pdd.ctx with qpd :=
          { pdd.ctx.qpd with evicted := pdd.ctx.qpd.evicted + 1 } }, none))
        (.start _) pdd.ctx.qpd.queues.length
      exact hloop.parked rfl (by simp [hevicted]) h.vm

theorem foldl_tolerated {f : Ctx × Option Errno → Nat → Ctx × Option Errno} {m : Nat} {c : Ctx}
    (hf : ∀ i s, i < m → s.1.dqm.enableMes = c.dqm.enableMes → Tolerated s.2 →
      (f s i).1.dqm.enableMes = c.dqm.enableMes ∧ Tolerated (f s i).2) :
    ((range m).foldl f (c, none)).1.dqm.enableMes = c.dqm.enableMes ∧
      Tolerated ((range m).foldl f (c, none)).2 := by
  have hloop := foldl_range_inv (f := f)
    (P := fun i s => i ≤ m → s.1.dqm.enableMes = c.dqm.enableMes ∧ Tolerated s.2)
    (fun i s hs hi => hf i s hi (hs (by omega)).1 (hs (by omega)).2)
    (s := (c, none)) (fun _ => ⟨rfl, .inl rfl⟩) m
  exact hloop (le_refl m)

theorem removeQueueIfMes_tolerated (dqm : Dqm)
    (hanswer : dqm.enableMes = true → Tolerated (hw.removeHwQueue i)) :
    (removeQueueIfMes hw i dqm).1.enableMes = dqm.enableMes ∧
      Tolerated (removeQueueIfMes hw i dqm).2 := by
  unfold removeQueueIfMes
  split
  · next hmes =>
    unfold removeQueueMes
    split
    · exact ⟨rfl, .inr rfl⟩
    · split
      · exact ⟨rfl, .inl rfl⟩
      · next e he => exact ⟨rfl, he ▸ hanswer hmes⟩
  · exact ⟨rfl, .inl rfl⟩

theorem evictQueue_tolerated (hanswer : s.1.dqm.enableMes = true → Tolerated (hw.removeHwQueue i))
    (hs : Tolerated s.2) :
    (evictQueue hw s i).1.dqm.enableMes = s.1.dqm.enableMes ∧ Tolerated (evictQueue hw s i).2 := by
  unfold evictQueue
  split
  · exact ⟨rfl, hs⟩
  · next q hq =>
    split
    · have hremove := removeQueueIfMes_tolerated (decrementQueueCount (s.1.setQueue (.listed i)
        { q with isEvicted := true, isActive := false }) q.type q.isGws).dqm hanswer
      refine ⟨hremove.1, ?_⟩
      simp only
      split
      · exact hs
      · exact hremove.2
    · exact ⟨rfl, hs⟩

theorem executeQueuesCpsch_tolerated (dqm : Dqm) (hunmap : Tolerated hw.sendUnmap)
    (hpreempted : hw.preempted = true) (hrunlist : Tolerated hw.sendRunlist) :
    Tolerated (executeQueuesCpsch hw dqm).2 := by
  have hmap : ∀ dqm, Tolerated (mapQueuesCpsch hw dqm).2 := by
    intro dqm
    unfold mapQueuesCpsch
    repeat' split
    · exact .inl rfl
    · exact .inl rfl
    · exact .inl rfl
    · next e he => exact he ▸ hrunlist
    · exact .inl rfl
  have hunmapped : Tolerated (unmapQueuesCpsch hw dqm).2 := by
    simp only [unmapQueuesCpsch, hpreempted, if_true]
    repeat' split
    · exact .inl rfl
    · exact .inr rfl
    · exact .inl rfl
    · next e he => exact he ▸ hunmap
    · exact .inl rfl
  unfold executeQueuesCpsch
  split
  · exact .inr rfl
  · split
    · next e he => rw [he] at hunmapped; exact hunmapped
    · exact hmap _

theorem evictProcessQueues_tolerated (hok : EvictOk a pdd) :
    Tolerated (evictProcessQueues a pdd).2 := by
  unfold evictProcessQueues
  unfold EvictOk at hok
  cases hcpsch : pdd.cpsch with
  | true =>
    simp only [if_true]
    unfold evictProcessQueuesCpsch
    simp only
    split
    · exact .inl rfl
    · next hpos =>
      have hok := hok (by omega)
      rw [if_pos hcpsch] at hok
      split
      · exact .inl rfl
      · obtain ⟨hmes, ht⟩ := foldl_tolerated (f := evictQueue a.hw)
          (m := pdd.ctx.qpd.queues.length)
          (c := { pdd.ctx with qpd := { pdd.ctx.qpd with evicted := pdd.ctx.qpd.evicted + 1 } })
          (fun i s hi hmes hs => by
            have hanswer : s.1.dqm.enableMes = true → Tolerated (a.hw.removeHwQueue i) := by
              intro hon
              rw [if_pos (hmes ▸ hon)] at hok
              exact hok i hi
            have hstep := evictQueue_tolerated hanswer hs
            exact ⟨hstep.1.trans hmes, hstep.2⟩)
        unfold Ctx.executeUnlessMes
        split
        · exact ht
        · next hoff =>
          rw [hmes] at hoff
          rw [if_neg hoff] at hok
          exact executeQueuesCpsch_tolerated _ hok.1 hok.2.1 hok.2.2
  | false =>
    simp only [Bool.false_eq_true, if_false]
    unfold evictProcessQueuesNocpsch
    simp only
    split
    · exact .inl rfl
    · next hpos =>
      have hok := hok (by omega)
      rw [if_neg (by simp [hcpsch])] at hok
      refine (foldl_tolerated fun i s hi hmes hs => ?_).2
      unfold evictQueueNocpsch
      split
      · exact ⟨hmes, hs⟩
      · split
        · simp only
          split
          · exact ⟨hmes, hs⟩
          · refine ⟨hmes, ?_⟩
            rcases hs with hs | hs
            · rw [hs]
              exact hok i hi
            · rw [hs]
              exact .inr rfl
        · exact ⟨hmes, hs⟩

/-- What a restore loop has done before index `i`, started from `c0`: the queues
from there on and the flags of the manager are as they were. -/
structure RestoredBelow (i : Nat) (c0 : Ctx) (s : Ctx × Option Errno) : Prop where
  above : ∀ k, i ≤ k → s.1.qpd.queues[k]? = c0.qpd.queues[k]?
  length : s.1.qpd.queues.length = c0.qpd.queues.length
  drmPriv : s.1.qpd.drmPriv = c0.qpd.drmPriv
  enableMes : s.1.dqm.enableMes = c0.dqm.enableMes
  isHwsHang : s.1.dqm.isHwsHang = c0.dqm.isHwsHang
  isResetting : s.1.dqm.isResetting = c0.dqm.isResetting
  schedRunning : s.1.dqm.schedRunning = c0.dqm.schedRunning
  ok : s.2 = none

theorem RestoredBelow.start (c : Ctx) : RestoredBelow 0 c (c, none) :=
  ⟨fun _ _ => rfl, rfl, rfl, rfl, rfl, rfl, rfl, rfl⟩

theorem RestoredBelow.set {s s' : Ctx × Option Errno} (h : RestoredBelow i c0 s) {q : Queue}
    (hqueues : s'.1.qpd.queues = s.1.qpd.queues.set i q)
    (hdrm : s'.1.qpd.drmPriv = s.1.qpd.drmPriv) (hmes : s'.1.dqm.enableMes = s.1.dqm.enableMes)
    (hhang : s'.1.dqm.isHwsHang = s.1.dqm.isHwsHang)
    (hreset : s'.1.dqm.isResetting = s.1.dqm.isResetting)
    (hrunning : s'.1.dqm.schedRunning = s.1.dqm.schedRunning) (hok : s'.2 = none) :
    RestoredBelow (i + 1) c0 s' := by
  refine ⟨fun k hk => ?_, ?_, hdrm.trans h.drmPriv, hmes.trans h.enableMes,
    hhang.trans h.isHwsHang, hreset.trans h.isResetting, hrunning.trans h.schedRunning, hok⟩
  · rw [hqueues, getElem?_set_ne (by omega)]
    exact h.above k (by omega)
  · rw [hqueues, length_set]
    exact h.length

theorem RestoredBelow.parked {qpd : Qpd} (h : RestoredBelow i c0 s)
    (hvm : c0.qpd.drmPriv = false → c0.qpd.queues = []) (hevicted : qpd.evicted = 0)
    (hdrm : qpd.drmPriv = s.1.qpd.drmPriv) (hqueues : qpd.queues = s.1.qpd.queues) :
    qpd.Parked 0 := by
  refine ⟨hevicted, fun hpos => absurd hpos (lt_irrefl 0), fun hno => ?_⟩
  have hlen := h.length
  rw [hvm (h.drmPriv ▸ hdrm ▸ hno)] at hlen
  rw [hqueues]
  exact eq_nil_of_length_eq_zero hlen

theorem restoreQueue_restoredBelow (h : RestoredBelow i c0 s)
    (hanswer : c0.dqm.enableMes = true → ∀ q, c0.qpd.queues[i]? = some q →
      queueIsActive { q with isEvicted := false } = true →
        c0.dqm.isHwsHang = false ∧ (q.type = .compute ∨ q.type = .sdma) ∧
        hw.addHwQueue i = none) :
    RestoredBelow (i + 1) c0 (restoreQueue hw s i) := by
  have hnone := h.ok
  unfold restoreQueue
  split
  · next q _ hq =>
    simp only
    split
    · next hactive =>
      rw [addQueueIfMes_ok fun hon => ?_]
      · exact h.set rfl rfl rfl rfl rfl rfl rfl
      · have hmes : c0.dqm.enableMes = true := h.enableMes.symm.trans hon
        rw [h.above i (le_refl i)] at hq
        obtain ⟨hhang, htype, hhw⟩ := hanswer hmes q hq hactive
        exact ⟨h.isHwsHang.trans hhang, htype, hhw⟩
    · exact h.set rfl rfl rfl rfl rfl rfl rfl
  · next hno =>
    refine ⟨fun k hk => h.above k (by omega), h.length, h.drmPriv, h.enableMes, h.isHwsHang,
      h.isResetting, h.schedRunning, hnone⟩

theorem executeQueuesCpsch_ok {dqm : Dqm} (hhang : dqm.isHwsHang = false)
    (hreset : dqm.schedRunning = true → dqm.isResetting = false) (hunmap : hw.sendUnmap = none)
    (hpreempted : hw.preempted = true) (hrunlist : hw.sendRunlist = none) :
    (executeQueuesCpsch hw dqm).2 = none := by
  have hmap : ∀ dqm, (mapQueuesCpsch hw dqm).2 = none := by
    intro dqm
    simp only [mapQueuesCpsch, hrunlist]
    repeat' split
    all_goals rfl
  have hunmapped : (unmapQueuesCpsch hw dqm).2 = none := by
    simp only [unmapQueuesCpsch, hunmap, hpreempted, if_true]
    split
    · rfl
    · next hrunning =>
      rw [if_neg (by simp [hhang, hreset (by simpa using hrunning)])]
      split
      · rfl
      · rfl
  unfold executeQueuesCpsch
  rw [if_neg (by simp [hhang])]
  split
  · next e he => rw [he] at hunmapped; cases hunmapped
  · exact hmap _

theorem restoreQueueNocpsch_restoredBelow (h : RestoredBelow i c0 s)
    (hanswer : i < c0.qpd.queues.length → a.loadMqd i = none) :
    RestoredBelow (i + 1) c0 (restoreQueueNocpsch a s i) := by
  have hnone := h.ok
  unfold restoreQueueNocpsch
  split
  · exact ⟨fun k hk => h.above k (by omega), h.length, h.drmPriv, h.enableMes, h.isHwsHang,
      h.isResetting, h.schedRunning, hnone⟩
  · next q hq =>
    obtain ⟨hlt, -⟩ := List.getElem?_eq_some_iff.mp hq
    have hload := hanswer (h.length ▸ hlt)
    simp only
    repeat' split
    · exact h.set rfl rfl rfl rfl rfl rfl hnone
    · exact h.set rfl rfl rfl rfl rfl rfl (by rw [hnone, hload]; rfl)
    · exact h.set rfl rfl rfl rfl rfl rfl hnone

theorem restoreProcessQueues_spec (h : pdd.ctx.qpd.Parked (n + 1)) (hok : RestoreOk a pdd) :
    (restoreProcessQueues a pdd).1.ctx.qpd.Parked n ∧ (restoreProcessQueues a pdd).2 = none := by
  have hevicted := h.evicted
  unfold restoreProcessQueues
  unfold RestoreOk at hok
  cases n with
  | succ n =>
    -- Another eviction stays, so nothing is restored.
    have hless : Qpd.Parked (n + 1) { pdd.ctx.qpd with evicted := pdd.ctx.qpd.evicted - 1 } :=
      ⟨by simp [hevicted], fun _ => h.quiet (by omega), h.vm⟩
    cases pdd.cpsch with
    | true =>
      simp only [if_true, restoreProcessQueuesCpsch]
      rw [if_neg (by omega), if_pos (by omega)]
      exact ⟨hless, rfl⟩
    | false =>
      simp only [Bool.false_eq_true, if_false, restoreProcessQueuesNocpsch]
      rw [if_neg (by omega), if_pos (by omega)]
      exact ⟨hless, rfl⟩
  | zero =>
    have hok := hok hevicted
    cases hcpsch : pdd.cpsch with
    | true =>
      rw [if_pos hcpsch] at hok
      simp only [if_true, restoreProcessQueuesCpsch]
      rw [if_neg (by omega), if_neg (by omega)]
      split
      · exact ⟨⟨rfl, fun hpos => absurd hpos (lt_irrefl 0), h.vm⟩, rfl⟩
      · have hloop := foldl_range_inv (f := restoreQueue a.hw)
          (P := fun i s => RestoredBelow i pdd.ctx s)
          (fun i s hs => restoreQueue_restoredBelow hs (by
            intro hmes q hq hactive
            rw [if_pos hmes] at hok
            obtain ⟨hlt, rfl⟩ := List.getElem?_eq_some_iff.mp hq
            exact hok ⟨i, hlt⟩ hactive))
          (.start pdd.ctx) pdd.ctx.qpd.queues.length
        simp only [hloop.ok]
        refine ⟨hloop.parked h.vm rfl ?_ ?_, ?_⟩
        · simp only [Ctx.executeUnlessMes]
          split <;> rfl
        · simp only [Ctx.executeUnlessMes]
          split <;> rfl
        · simp only [Ctx.executeUnlessMes]
          split
          · rfl
          · next hoff =>
            rw [hloop.enableMes] at hoff
            rw [if_neg hoff] at hok
            obtain ⟨hhang, hreset, hunmap, hpreempted, hrunlist⟩ := hok
            refine executeQueuesCpsch_ok (hloop.isHwsHang.trans hhang) ?_ hunmap hpreempted hrunlist
            rw [hloop.schedRunning, hloop.isResetting]
            exact hreset
    | false =>
      rw [if_neg (by simp [hcpsch])] at hok
      simp only [Bool.false_eq_true, if_false, restoreProcessQueuesNocpsch]
      rw [if_neg (by omega), if_neg (by omega), if_neg (by simp [hok.1])]
      have hloop := foldl_range_inv (f := restoreQueueNocpsch a)
        (P := fun i s => RestoredBelow i pdd.ctx s)
        (fun i s hs => restoreQueueNocpsch_restoredBelow hs (hok.2 i))
        (.start pdd.ctx) pdd.ctx.qpd.queues.length
      exact ⟨hloop.parked h.vm rfl rfl rfl, hloop.ok⟩

theorem restoreProcessQueues_noMm (hcpsch : pdd.cpsch = false) (hmm : a.taskMm = false)
    (hevicted : pdd.ctx.qpd.evicted = 1) :
    restoreProcessQueues a pdd = (pdd, some .efault) := by
  unfold restoreProcessQueues
  rw [if_neg (by simp [hcpsch]), restoreProcessQueuesNocpsch, if_neg (by omega),
    if_neg (by omega), if_pos hmm]

end Device

/-! ## The walks -/

/-- The state and the answers with which a step does what it should: the device
call of an eviction is tolerated and that of a restore succeeds. A process with
one device may also lose its address space: its restore then changes nothing. -/
def Act.Ok (p : Proc) : Act → Prop
  | .advance src a =>
    match p.sources[src]? with
    | some (.evicting i) => ∀ pdd ∈ p.pdds[i]?, EvictOk a pdd
    | some (.restoring i _) => ∀ pdd ∈ p.pdds[i]?,
        RestoreOk a pdd ∨ (p.pdds.length = 1 ∧ pdd.cpsch = false ∧ a.taskMm = false)
    | _ => True
  | _ => True

instance (p : Proc) (x : Act) : Decidable (x.Ok p) := by
  unfold Act.Ok
  split
  · split
    all_goals infer_instance
  · infer_instance

/-- The counter of each device is the number of evictions that cover it, and its
queues are parked accordingly. No source rolls back, and a restore fails only
on a process with one device. -/
structure Nested (p : Proc) : Prop where
  parked : ∀ j (pdd : Pdd), p.pdds[j]? = some pdd → pdd.ctx.qpd.Parked (p.outstanding j)
  noRollback : ∀ i nEvicted, .rollingBack i nEvicted ∉ p.sources
  single : ∀ i e, .restoring i (some e) ∈ p.sources → p.pdds.length = 1 ∧ 0 < i

section Walk
variable {p : Proc} {src i : Nat} {phase next : Phase}

theorem outstanding_set (hsrc : p.sources[src]? = some phase) (next : Phase) (pdds : List Pdd)
    (j : Nat) :
    Proc.outstanding { pdds := pdds, sources := p.sources.set src next } j + phase.covers j =
      p.outstanding j + next.covers j := by
  simp only [Proc.outstanding]
  rw [sum_map_set (Phase.covers j) hsrc, ← sum_map_eraseIdx_add (Phase.covers j) hsrc]
  omega

/-- A source changes its phase, no device call is made. -/
theorem Nested.setSource (hi : Nested p) (hsrc : p.sources[src]? = some phase)
    (hcovers : ∀ j < p.pdds.length, next.covers j = phase.covers j)
    (hrollback : ∀ i nEvicted, next ≠ .rollingBack i nEvicted)
    (hsingle : ∀ i e, next ≠ .restoring i (some e)) :
    Nested { p with sources := p.sources.set src next } := by
  constructor
  · intro j pdd hj
    obtain ⟨hlt, -⟩ := List.getElem?_eq_some_iff.mp hj
    have hsum := outstanding_set hsrc next p.pdds j
    rw [hcovers j hlt] at hsum
    rw [Nat.add_right_cancel hsum]
    exact hi.parked j pdd hj
  · intro i nEvicted hmem
    rcases mem_or_eq_of_mem_set hmem with hmem | heq
    · exact hi.noRollback i nEvicted hmem
    · exact hrollback i nEvicted heq.symm
  · intro i e hmem
    rcases mem_or_eq_of_mem_set hmem with hmem | heq
    · exact hi.single i e hmem
    · exact absurd heq.symm (hsingle i e)

theorem Nested.sched (hi : Nested p) (i : Nat) (f : Pdd → Dqm) : Nested (p.sched i f) := by
  refine ⟨fun j pdd hj => ?_, hi.noRollback, fun k e hmem => ?_⟩
  · simp only [Proc.sched, getElem?_modify] at hj
    obtain ⟨old, hold, rfl⟩ := Option.map_eq_some_iff.mp hj
    have hparked := hi.parked j old hold
    split
    · exact hparked
    · exact hparked
  · rw [Proc.sched, length_modify]
    exact hi.single k e hmem

theorem Nested.call (hi : Nested p) (hsrc : p.sources[src]? = some phase) {pdd pdd' : Pdd}
    (hpdd : p.pdds[i]? = some pdd) {n : Nat} (hparked : pdd'.ctx.qpd.Parked n)
    (hn : n + phase.covers i = p.outstanding i + next.covers i)
    (hcovers : ∀ j < p.pdds.length, j ≠ i → next.covers j = phase.covers j)
    (hrollback : ∀ i nEvicted, next ≠ .rollingBack i nEvicted)
    (hsingle : ∀ i e, next = .restoring i (some e) → p.pdds.length = 1 ∧ 0 < i) :
    Nested { pdds := p.pdds.set i pdd', sources := p.sources.set src next } := by
  obtain ⟨hlt, -⟩ := List.getElem?_eq_some_iff.mp hpdd
  constructor
  · intro j x hj
    have hsum := outstanding_set hsrc next (p.pdds.set i pdd') j
    simp only [getElem?_set] at hj
    split at hj
    · next heq =>
      subst heq
      cases hj
      have heq : n = Proc.outstanding
          { pdds := p.pdds.set i pdd', sources := p.sources.set src next } i := by omega
      exact heq ▸ hparked
    · next hne =>
      obtain ⟨hj', -⟩ := List.getElem?_eq_some_iff.mp hj
      rw [hcovers j hj' (Ne.symm hne)] at hsum
      rw [Nat.add_right_cancel hsum]
      exact hi.parked j x hj
  · intro k nEvicted hmem
    rcases mem_or_eq_of_mem_set hmem with hmem | heq
    · exact hi.noRollback k nEvicted hmem
    · exact hrollback k nEvicted heq.symm
  · intro k e hmem
    rw [length_set]
    rcases mem_or_eq_of_mem_set hmem with hmem | heq
    · exact hi.single k e hmem
    · exact hsingle k e heq.symm

theorem advance_nested {a : Answers} (hi : Nested p) (hsrc : p.sources[src]? = some phase)
    (hok : Act.Ok p (.advance src a)) : Nested (p.advance src a phase) := by
  simp only [Act.Ok, hsrc] at hok
  cases phase with
  | idle | held | heldOn i => exact hi
  | rollingBack i nEvicted => exact absurd (mem_of_getElem? hsrc) (hi.noRollback i nEvicted)
  | evicting i =>
    unfold Proc.advance
    simp only
    split
    · next hlt =>
      have hpdd : p.pdds[i]? = some p.pdds[i] := getElem?_eq_getElem hlt
      have htolerated := evictProcessQueues_tolerated (hok _ hpdd)
      have hnext : (if (evictProcessQueues a p.pdds[i]).2 = none ∨
          (evictProcessQueues a p.pdds[i]).2 = some .eio then
            Phase.evicting (i + 1) else .rollingBack 0 i) = .evicting (i + 1) :=
        if_pos htolerated
      simp only [Proc.call, hpdd, hnext]
      refine hi.call hsrc hpdd (evictProcessQueues_parked a (hi.parked i _ hpdd)) ?_ ?_ ?_ ?_
      · simp [Phase.covers]
      · intro j hj hne
        simp only [Phase.covers]
        split <;> split <;> omega
      · exact fun _ _ h => nomatch h
      · exact fun _ _ h => nomatch h
    · next hge =>
      refine hi.setSource hsrc ?_ (fun _ _ h => nomatch h) (fun _ _ h => nomatch h)
      intro j hj
      simp only [Phase.covers]
      rw [if_pos (by omega)]
  | restoring i ret =>
    unfold Proc.advance
    simp only
    split
    · next hlt =>
      have hpdd : p.pdds[i]? = some p.pdds[i] := getElem?_eq_getElem hlt
      -- No device has failed yet, and this source covers the device.
      obtain rfl : ret = none := by
        cases ret with
        | none => rfl
        | some e =>
          obtain ⟨hone, hpos⟩ := hi.single i e (mem_of_getElem? hsrc)
          omega
      obtain ⟨n, hn⟩ : ∃ n, p.outstanding i = n + 1 := by
        have hsum := sum_map_eraseIdx_add (Phase.covers i) hsrc
        simp only [Phase.covers, le_refl, true_or, if_true] at hsum
        exact ⟨_, hsum.symm⟩
      have hparked := hn ▸ hi.parked i _ hpdd
      simp only [Proc.call, hpdd]
      by_cases hrestore : RestoreOk a p.pdds[i]
      · obtain ⟨hparked', hnone⟩ := restoreProcessQueues_spec hparked hrestore
        rw [hnone]
        refine hi.call hsrc hpdd hparked' ?_ ?_ (fun _ _ h => nomatch h) (fun _ _ h => nomatch h)
        · simp [Phase.covers, hn]
        · intro j hj hne
          simp only [Phase.covers, Option.or_none, Option.isSome_none, Bool.false_eq_true, or_false]
          split <;> split <;> omega
      · obtain hbad | ⟨hone, hcpsch, hmm⟩ := hok _ hpdd
        · exact absurd hbad hrestore
        · have hevicted : p.pdds[i].ctx.qpd.evicted = 1 := by
            by_contra hne
            exact hrestore fun h => absurd h hne
          rw [restoreProcessQueues_noMm hcpsch hmm hevicted]
          refine hi.call hsrc hpdd hparked ?_ ?_ (fun _ _ h => nomatch h) ?_
          · simp [Phase.covers, hn]
          · intro j hj hne
            omega
          · intro k e h
            cases h
            exact ⟨hone, Nat.succ_pos i⟩
    · next hge =>
      refine hi.setSource hsrc ?_ ?_ ?_
      · intro j hj
        cases ret with
        | none =>
          simp only [Phase.covers, if_true]
          rw [if_neg (by simp; omega)]
        | some e => simp [Phase.covers]
      · intro k nEvicted h
        split at h <;> cases h
      · intro k e h
        split at h <;> cases h

end Walk

theorem act_nested (p : Proc) (x : Act) (hi : Nested p) (hok : x.Ok p) : Nested (act p x) := by
  cases x with
  | evict src | restore src =>
    simp only [act]
    split
    · next hsrc =>
      refine hi.setSource hsrc ?_ (fun _ _ h => nomatch h) (fun _ _ h => nomatch h)
      intro j hj
      simp [Phase.covers]
    · exact hi
  | advance src a =>
    simp only [act]
    split
    · exact hi
    · next phase hsrc => exact advance_nested hi hsrc hok
  | evictPasid src i a =>
    simp only [act]
    split
    · next hsrc =>
      unfold Proc.call
      split
      · exact hi
      · next pdd hpdd =>
        refine hi.call hsrc hpdd (evictProcessQueues_parked a (hi.parked i pdd hpdd)) ?_ ?_
          (fun _ _ h => nomatch h) (fun _ _ h => nomatch h)
        · simp [Phase.covers]
        · intro j hj hne
          simp [Phase.covers, hne]
    · exact hi
  | queueOp i pid op =>
    simp only [act]
    split
    · exact hi
    · next pdd hpdd =>
      split
      · next hop =>
        refine ⟨fun j x hj => ?_, hi.noRollback, ?_⟩
        · simp only [getElem?_set] at hj
          split at hj
          · next heq =>
            subst heq
            obtain ⟨hlt, -⟩ := List.getElem?_eq_some_iff.mp hpdd
            rw [if_pos hlt] at hj
            cases hj
            exact ProcOp.apply_parked pid op hop.2 (hi.parked i pdd hpdd)
          · exact hi.parked j x hj
        · intro k e hmem
          rw [length_set]
          exact hi.single k e hmem
      · exact hi
  | start i hw ok | stop i hw mesRemove | preReset i => exact hi.sched i _

theorem Nested.nests {p : Proc} (hi : Nested p) : p.Nests := by
  intro j pdd hj
  have hparked := hi.parked j pdd hj
  refine ⟨hparked.evicted, fun q hq hactive phase hphase => ?_⟩
  by_contra hcovers
  obtain ⟨src, hsrc⟩ := mem_iff_getElem?.mp hphase
  have hsum := sum_map_eraseIdx_add (Phase.covers j) hsrc
  have hpos : 0 < p.outstanding j := by
    simp only [Proc.outstanding] at hsum ⊢
    omega
  have hquiet := (hparked.quiet hpos q hq).2
  rw [hactive] at hquiet
  cases hquiet

/-! ## Runs -/

/-- A process whose queues on each device are in any state but evicted, with
`n` sources that hold nothing. -/
def Proc.start (pdds : List Pdd) (n : Nat) : Proc :=
  { pdds := pdds, sources := replicate n .idle }

theorem Proc.start_nested {pdds : List Pdd} (n : Nat)
    (hpdds : ∀ pdd ∈ pdds, pdd.ctx.qpd.evicted = 0 ∧
      (pdd.ctx.qpd.drmPriv = false → pdd.ctx.qpd.queues = [])) :
    Nested (Proc.start pdds n) := by
  have hnone : ∀ j, (Proc.start pdds n).outstanding j = 0 := by
    intro j
    simp [Proc.outstanding, Proc.start, Phase.covers]
  refine ⟨fun j pdd hj => ?_, fun i nEvicted hmem => ?_, fun i e hmem => ?_⟩
  · obtain ⟨hevicted, hvm⟩ := hpdds pdd (mem_of_getElem? hj)
    rw [hnone]
    exact ⟨hevicted, fun hpos => absurd hpos (lt_irrefl 0), hvm⟩
  · cases eq_of_mem_replicate hmem
  · cases eq_of_mem_replicate hmem

/-- In a run in which no device call of an eviction or a restore fails, the
counter of each device is the number of evictions that cover it, and a queue is
active only when no source holds an eviction. -/
theorem evictions_nest (pdds : List Pdd) (n : Nat) (acts : List Act)
    (hpdds : ∀ pdd ∈ pdds, pdd.ctx.qpd.evicted = 0 ∧
      (pdd.ctx.qpd.drmPriv = false → pdd.ctx.qpd.queues = []))
    (hok : StepsOk act (fun p x => x.Ok p) (Proc.start pdds n) acts) :
    (run act (Proc.start pdds n) acts).Nests :=
  (run_inv_of_stepsOk act_nested (Proc.start_nested n hpdds) hok).nests

def exPdd : Pdd :=
  { cpsch := true
    ctx := (ProcOp.createQueue .good none false .compute 4096 0x1000 100).apply 0
      ⟨(init true 127).dqm, newQpd true⟩ }

def exWalk (src : Nat) : List Act :=
  [.advance src .good, .advance src .good, .advance src .good]

def exNested : List Act :=
  [.evict 0] ++ exWalk 0 ++ [.evict 1] ++ exWalk 1 ++ [.restore 0] ++ exWalk 0

theorem evictions_nest_exNested :
    (run act (Proc.start [exPdd, exPdd] 2) exNested).sources = [.idle, .held] ∧
      (run act (Proc.start [exPdd, exPdd] 2) exNested).Nests :=
  ⟨by decide, evictions_nest [exPdd, exPdd] 2 exNested (by decide) (by decide)⟩

def exAddFails : Answers :=
  { Answers.good with hw := { Hw.good with addHwQueue := fun _ => some .einval } }

/-- The restore of source 0 fails on the second device, source 1 evicts the
process, and source 0 tries again. -/
def exFailedRestore : List Act :=
  [.evict 0] ++ exWalk 0 ++
  [.restore 0, .advance 0 .good, .advance 0 exAddFails, .advance 0 .good] ++
  [.evict 1] ++ exWalk 1 ++ [.restore 0] ++ exWalk 0

/-- A restore that fails on one device and is retried undoes the eviction of
another source on the other device: its queue is active there. -/
theorem failed_restore_undoes_other :
    ¬∀ (pdds : List Pdd) (n : Nat) (acts : List Act),
      (∀ pdd ∈ pdds, pdd.ctx.qpd.evicted = 0 ∧
        (pdd.ctx.qpd.drmPriv = false → pdd.ctx.qpd.queues = [])) →
      (run act (Proc.start pdds n) acts).Nests := by
  intro h
  have hpdd := h [exPdd, exPdd] 2 exFailedRestore (by decide) 0
  have hactive : ∃ pdd, (run act (Proc.start [exPdd, exPdd] 2) exFailedRestore).pdds[0]? =
      some pdd ∧ pdd.ctx.qpd.queues.any (·.isActive) = true :=
    ⟨_, rfl, by decide⟩
  obtain ⟨pdd, hj, hany⟩ := hactive
  obtain ⟨q, hq, hqactive⟩ := any_eq_true.mp hany
  have hheld : Phase.held ∈ (run act (Proc.start [exPdd, exPdd] 2) exFailedRestore).sources := by
    decide
  cases (hpdd pdd hj).2 q hq hqactive _ hheld

end Amdkfd.Eviction

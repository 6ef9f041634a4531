import Amdkfd.QueueManager.Parked

/-!
# The mark of an evicted queue

`is_evicted` of a queue says whether its process is evicted from the device. `Parked` is the
half of this for an evicted process; the other half is that no queue of a process that is not
evicted has the mark. A restore clears the mark of one queue after the other, and ends early
when MES cannot add a queue.
-/

namespace Amdkfd.QueueManager

open Lib List

/-- Every queue of the list has the mark `b`. -/
def Qpd.AllMarked (b : Bool) (qpd : Qpd) : Prop :=
  ∀ q ∈ qpd.queues, q.isEvicted = b

/-- What `q` has to meet to stand in the place of `ref`. -/
def Queue.HasMark (b : Bool) (ref : QueueRef) (q : Queue) : Prop :=
  ∀ i, ref = .listed i → q.isEvicted = b

variable {b : Bool} {c : Ctx} {qpd : Qpd}

theorem Queue.From.hasMark {q : Queue} (h : q.From qpd) (hmark : qpd.AllMarked b)
    (hb : decide (0 < qpd.evicted) = b) (ref : QueueRef) : q.HasMark b ref := by
  intro i _
  rcases h with ⟨q0, hmem, hsame, -⟩ | ⟨-, hnew, -⟩
  · exact hsame.trans (hmark q0 hmem)
  · exact hnew.trans hb

theorem ProcOp.apply_allMarked (pid : Nat) (op : ProcOp) (hop : op.IsQueueOp c.qpd)
    (hb : decide (0 < c.qpd.evicted) = b) (h : c.qpd.AllMarked b) :
    (op.apply pid c).qpd.AllMarked b :=
  fun q hq => ((op.apply_follows pid hop).2.2 q hq).hasMark h hb (.listed 0) 0 rfl

/-! ## Restores -/

/-- MES takes every queue that a restore makes active. -/
def AddsQueues (hw : Hw) (c : Ctx) : Prop :=
  c.dqm.enableMes = true → ∀ i : Fin c.qpd.queues.length,
    queueIsActive { c.qpd.queues.get i with isEvicted := false } = true →
      c.dqm.isHwsHang = false ∧
      ((c.qpd.queues.get i).type = .compute ∨ (c.qpd.queues.get i).type = .sdma) ∧
      hw.addHwQueue i = none
  deriving Decidable

/-- What the loop of a restore from `c0` has done before index `i`. -/
structure ClearedBelow (i : Nat) (c0 : Ctx) (s : Ctx × Option Errno) : Prop where
  below : ∀ k < i, ∀ q, s.1.qpd.queues[k]? = some q → q.isEvicted = false
  above : ∀ k, i ≤ k → s.1.qpd.queues[k]? = c0.qpd.queues[k]?
  length : s.1.qpd.queues.length = c0.qpd.queues.length
  drmPriv : s.1.qpd.drmPriv = c0.qpd.drmPriv
  enableMes : s.1.dqm.enableMes = c0.dqm.enableMes
  isHwsHang : s.1.dqm.isHwsHang = c0.dqm.isHwsHang
  ok : s.2 = none

section Restore
variable {i : Nat} {c0 : Ctx} {s s' : Ctx × Option Errno}

theorem ClearedBelow.set (h : ClearedBelow i c0 s) {q : Queue} (hq : q.isEvicted = false)
    (hqueues : s'.1.qpd.queues = s.1.qpd.queues.set i q)
    (hdrm : s'.1.qpd.drmPriv = s.1.qpd.drmPriv) (hmes : s'.1.dqm.enableMes = s.1.dqm.enableMes)
    (hhang : s'.1.dqm.isHwsHang = s.1.dqm.isHwsHang) (hok : s'.2 = none) :
    ClearedBelow (i + 1) c0 s' := by
  refine ⟨fun k hk x hx => ?_, fun k hk => ?_, ?_, hdrm.trans h.drmPriv, hmes.trans h.enableMes,
    hhang.trans h.isHwsHang, hok⟩
  · rw [hqueues, getElem?_set] at hx
    split at hx
    · split at hx
      · cases hx
        exact hq
      · cases hx
    · exact h.below k (by omega) x hx
  · rw [hqueues, getElem?_set_ne (by omega)]
    exact h.above k (by omega)
  · rw [hqueues, length_set]
    exact h.length

theorem restoreQueue_clearedBelow {hw : Hw} (h : ClearedBelow i c0 s) (hadd : AddsQueues hw c0) :
    ClearedBelow (i + 1) c0 (restoreQueue hw s i) := by
  unfold restoreQueue
  split
  · next q _ hq =>
    simp only
    split
    · next hactive =>
      rw [addQueueIfMes_ok fun hon => ?_]
      · exact h.set rfl rfl rfl rfl rfl rfl
      · have hmes : c0.dqm.enableMes = true := h.enableMes.symm.trans hon
        rw [h.above i (Nat.le_refl i)] at hq
        obtain ⟨hlt, rfl⟩ := List.getElem?_eq_some_iff.mp hq
        obtain ⟨hhang, htype, hhw⟩ := hadd hmes ⟨i, hlt⟩ hactive
        exact ⟨h.isHwsHang.trans hhang, htype, hhw⟩
    · exact h.set (q := { q with isEvicted := false }) rfl rfl rfl rfl rfl rfl
  · next hno =>
    have hnone : s.1.qpd.queues[i]? = none := by
      cases hq : s.1.qpd.queues[i]? with
      | none => rfl
      | some q => exact absurd hq (hno q h.ok)
    have hlen := getElem?_eq_none_iff.mp hnone
    refine ⟨fun k hk q hq => ?_, fun k hk => h.above k (by omega), h.length, h.drmPriv,
      h.enableMes, h.isHwsHang, h.ok⟩
    obtain ⟨hlt, -⟩ := List.getElem?_eq_some_iff.mp hq
    exact h.below k (by omega) q hq

end Restore

/-! ## Steps -/

/-- While the process is evicted its queues have the mark and are inactive, and otherwise no
queue has it. -/
structure Qpd.Settled (qpd : Qpd) : Prop where
  parked : 0 < qpd.evicted → ∀ q ∈ qpd.queues, q.isEvicted = true ∧ q.isActive = false
  unmarked : qpd.evicted = 0 → ∀ q ∈ qpd.queues, q.isEvicted = false
  vm : qpd.drmPriv = false → qpd.queues = []

theorem Qpd.Settled.toParked (h : qpd.Settled) : qpd.Parked qpd.evicted :=
  ⟨rfl, h.parked, h.vm⟩

theorem Qpd.Settled.allMarked (h : qpd.Settled) : qpd.AllMarked (decide (0 < qpd.evicted)) := by
  intro q hq
  rcases Nat.eq_zero_or_pos qpd.evicted with hzero | hpos
  · rw [h.unmarked hzero q hq, hzero]
    rfl
  · rw [(h.parked hpos q hq).1, decide_eq_true hpos]

theorem Qpd.Parked.settled {n : Nat} (h : qpd.Parked n) (hmark : n = 0 → qpd.AllMarked false) :
    qpd.Settled :=
  ⟨fun hpos => h.quiet (h.evicted ▸ hpos), fun hzero => hmark (h.evicted ▸ hzero), h.vm⟩

theorem restoreProcessQueuesCpsch_settled {hw : Hw} {c : Ctx} (h : c.qpd.Settled)
    (hadd : c.qpd.evicted = 1 → AddsQueues hw c) :
    (restoreProcessQueuesCpsch hw c).1.qpd.Settled := by
  unfold restoreProcessQueuesCpsch
  split
  · exact h
  · split
    · next hmore =>
      refine ⟨fun _ => h.parked (by omega), fun hzero => ?_, h.vm⟩
      simp only at hzero
      omega
    · split
      · next hvm =>
        have hnil := h.vm hvm
        refine ⟨fun _ q hq => ?_, fun _ q hq => ?_, h.vm⟩
        · simp [hnil] at hq
        · simp [hnil] at hq
      · next hzero hmore _ =>
        have hloop := foldl_range_inv (f := restoreQueue hw)
          (P := fun i s => ClearedBelow i c s)
          (fun i s hs => restoreQueue_clearedBelow hs (hadd (by omega))) (s := (c, none))
          ⟨fun k hk => absurd hk (Nat.not_lt_zero k), fun _ _ => rfl, rfl, rfl, rfl, rfl, rfl⟩
          c.qpd.queues.length
        simp only
        generalize (range c.qpd.queues.length).foldl (restoreQueue hw) (c, none) = s at hloop
        rw [hloop.ok]
        have hclear : ∀ q ∈ s.1.qpd.queues, q.isEvicted = false := by
          intro q hq
          obtain ⟨k, hk⟩ := mem_iff_getElem?.mp hq
          obtain ⟨hlt, -⟩ := List.getElem?_eq_some_iff.mp hk
          exact hloop.below k (hloop.length ▸ hlt) q hk
        have hvm : s.1.qpd.drmPriv = false → s.1.qpd.queues = [] := by
          intro hno
          have hlen := hloop.length
          rw [h.vm (hloop.drmPriv ▸ hno)] at hlen
          exact eq_nil_of_length_eq_zero hlen
        simp only [executeUnlessMes_qpd]
        exact ⟨fun hpos => absurd hpos (Nat.lt_irrefl 0), fun _ => hclear, hvm⟩

/-- The condition of an operation: a queue is created on a device whose VM the process has
acquired, as `kfd_bind_process_to_device` sees to, and the restore that takes the last eviction
away finds MES ready to add the queues. -/
def ProcOp.Marks (c : Ctx) : ProcOp → Prop
  | .createQueue .. => c.qpd.drmPriv = true
  | .restore hw => c.qpd.evicted = 1 → AddsQueues hw c
  | _ => True

instance (c : Ctx) (op : ProcOp) : Decidable (op.Marks c) :=
  match op with
  | .createQueue .. => inferInstanceAs (Decidable (c.qpd.drmPriv = true))
  | .restore hw => inferInstanceAs (Decidable (c.qpd.evicted = 1 → AddsQueues hw c))
  | .register _ | .unregister | .acquireVm | .destroyQueue .. | .setProperties .. | .setGws ..
  | .updateQueue .. | .clearException _ | .evict _ | .suspend .. | .resume ..
  | .createKernelQueue .. | .destroyKernelQueue .. | .terminate _ => isTrue trivial

theorem ProcOp.apply_settled (pid : Nat) {c : Ctx} (op : ProcOp) (hop : op.Marks c)
    (h : c.qpd.Settled) : (op.apply pid c).qpd.Settled := by
  have hqueueOp : op.IsQueueOp c.qpd → (op.apply pid c).qpd.Settled := by
    intro hkind
    refine (op.apply_parked pid hkind h.toParked).settled fun hzero => ?_
    have hmark := op.apply_allMarked pid hkind rfl h.allMarked
    rw [hzero] at hmark
    exact hmark
  cases op with
  | evict hw => exact (evictProcessQueuesCpsch_parked hw h.toParked).settled nofun
  | restore hw => exact restoreProcessQueuesCpsch_settled h hop
  | createQueue hw resources criu type size address percent => exact hqueueOp hop
  | _ => exact hqueueOp trivial

def Op.Marks (s : State) : Op → Prop
  | .proc pid op => ∀ qpd ∈ s.qpds[pid]?, op.Marks ⟨s.dqm, qpd⟩
  | _ => True

instance Op.Marks.decidable (s : State) : ∀ op : Op, Decidable (op.Marks s)
  | .proc pid op => inferInstanceAs (Decidable (∀ qpd ∈ s.qpds[pid]?, op.Marks ⟨s.dqm, qpd⟩))
  | .newProcess _ => isTrue trivial
  | .start _ => isTrue trivial
  | .stop _ _ => isTrue trivial
  | .preReset => isTrue trivial

theorem step_settled (s : State) (op : Op) (h : ∀ qpd ∈ s.qpds, qpd.Settled) (hop : op.Marks s) :
    ∀ qpd ∈ (step s op).qpds, qpd.Settled := by
  cases op with
  | newProcess drmPriv =>
    intro qpd hqpd
    rcases mem_append.mp hqpd with hqpd | hqpd
    · exact h qpd hqpd
    · rw [mem_singleton.mp hqpd]
      exact ⟨fun hpos => absurd hpos (Nat.lt_irrefl 0), fun _ q hq => absurd hq not_mem_nil,
        fun _ => rfl⟩
  | proc pid op =>
    cases hpid : s.qpds[pid]? with
    | none =>
      simp only [step, hpid]
      exact h
    | some qpd =>
      simp only [step, hpid]
      intro x hx
      rcases mem_or_eq_of_mem_set hx with hx | rfl
      · exact h x hx
      · exact op.apply_settled pid (hop qpd hpid) (h qpd (mem_of_getElem? hpid))
  | start hw | stop hw mesRemove | preReset => exact h

end Amdkfd.QueueManager

import Amdkfd.QueueManager.Balance
import Mathlib.Algebra.Order.BigOperators.Group.List
import Mathlib.Algebra.Order.Ring.Nat

/-!
# The queue counters over runs

Run lists are sized from the counters of the manager, so the counters must be
the numbers of queues they stand for. Every operation works on one process and
keeps `Balanced` for the contribution of the others.

Four of them do so only from some states, and `ProcOp.Ok` names these states:
a restore when a queue of the process is already active, a resume of a queue
that is suspended and active, the destruction or update of a queue that a failed
destruction left behind, and giving GWS to a second queue. Each of them follows
an error of an earlier call.
-/

namespace Amdkfd.QueueManager

open Lib List Bool

section Balanced
variable {o : Tally} {c : Ctx}

/-! ## Operations -/

theorem Dqm.SameCounters.with_total {d d' : Dqm} (h : d.SameCounters d') (f : UInt32 → UInt32) :
    Dqm.SameCounters { d with totalQueueCount := f d.totalQueueCount }
      { d' with totalQueueCount := f d'.totalQueueCount } :=
  ⟨h.active, h.cp, h.gws, congrArg f h.total, h.max⟩

theorem decrement_increment_same {c' : Ctx} {dqm : Dqm} {type : QueueType} {isGws : Bool}
    (hs : (incrementQueueCount c type isGws).dqm.SameCounters dqm) (hc' : c'.dqm = dqm) :
    c.dqm.SameCounters (decrementQueueCount c' type isGws).dqm := by
  subst hc'
  have hcancel : ∀ n : UInt32, n + 1 - 1 = n := fun n => UInt32.add_sub_cancel n 1
  constructor
  · simp only [decrementQueueCount, hs.active, incrementQueueCount, hcancel]
  · simp only [decrementQueueCount, hs.cp, incrementQueueCount]
    split <;> simp only [hcancel]
  · simp only [decrementQueueCount, hs.gws, incrementQueueCount]
    split <;> simp only [hcancel]
  · exact hs.total
  · exact hs.max

variable {q : Queue}

section
variable (h : Balanced o c)
include h

theorem enqueueQueue_balanced (hw : Hw) (hgws : q.isGws = false)
    (hroom : o.live + c.qpd.live < c.dqm.maxQueues.val) : Balanced o (enqueueQueue hw c q).1 := by
  unfold enqueueQueue
  simp only
  split
  · next hactive =>
    split
    · next e he =>
      refine Balanced.of_lists (h.of_same (decrement_increment_same ?_ rfl)) rfl rfl ?_ ?_
      · exact scheduleQueue_same hw _ q
      · exact UInt32.add_sub_cancel _ _
      · simp only [incrementQueueCount, hgws, false_eq_true, if_false]
    · have hp := h.push hgws hroom rfl (if_pos hactive).symm
      exact hp.of_same ((scheduleQueue_same hw _ q).with_total (· + 1))
  · next hactive => exact h.push hgws hroom rfl (if_neg hactive).symm

theorem createQueueCpsch_balanced (hw : Hw) (resources : Option Errno) (criu : Bool)
    (hgws : q.isGws = false) : Balanced o (createQueueCpsch hw resources criu c q).1 := by
  unfold createQueueCpsch
  split
  · exact h
  · next hlt =>
    split
    · exact h
    · exact enqueueQueue_balanced h hw hgws (h.room hlt)

theorem destroyQueueCpsch_balanced (hw : Hw) (debugTrapEnabled : Bool) (i : Nat) :
    Balanced o (destroyQueueCpsch hw debugTrapEnabled c (.listed i)).1 := by
  unfold destroyQueueCpsch
  split
  · exact h
  · next q hq =>
    simp only [Qpd.queue?] at hq
    split
    · exact h
    · have hset := @Balanced.set_same o c h i q { q with isBeingDestroyed := true } hq rfl rfl rfl
      have hq' : (c.setQueue (.listed i) { q with isBeingDestroyed := true }).qpd.queues[i]? =
          some { q with isBeingDestroyed := true } := by
        simp [Ctx.setQueue, (List.getElem?_eq_some_iff.mp hq).1]
      split
      · exact hset
      · refine (hset.remove hq' rfl).of_same (Dqm.SameCounters.with_total ?_ (· - 1))
        split
        · exact unscheduleQueue_same hw _
        · exact .rfl

theorem pqmDestroyQueue_balanced (hw : Hw) (debugTrapEnabled : Bool) (i : Nat) :
    Balanced o (pqmDestroyQueue hw debugTrapEnabled c (.listed i)) := by
  have hd := destroyQueueCpsch_balanced h hw debugTrapEnabled i
  unfold pqmDestroyQueue
  split
  · exact h
  · simp only
    split
    · exact hd
    · split
      · exact hd.of_lists rfl rfl rfl rfl
      · exact hd.of_lists rfl rfl rfl rfl

theorem updateCounters_balanced {i : Nat} {q q' : Queue} (hq : c.qpd.queues[i]? = some q)
    (ht : q'.type = q.type) (hg : q'.isGws = q.isGws)
    (hok : q'.gws = true → q.isGws = false → c.qpd.queues.countP (·.isGws) = 0) :
    Balanced o (updateCounters c (.listed i) q.isActive q') := by
  unfold updateCounters
  split
  · next hinc =>
    simp only [and_eq_true, not_eq_true'] at hinc
    rw [ht, hg]
    exact h.activate hq hinc.2 hinc.1 ht hg
  · next hninc =>
    split
    · next hdec =>
      simp only [and_eq_true, not_eq_true'] at hdec
      rw [ht, hg]
      exact h.deactivate hq hdec.2 hdec.1 hg
    · next hndec =>
      have ha : q'.isActive = q.isActive := by
        revert hninc hndec
        cases q'.isActive <;> cases q.isActive <;> simp
      split
      · next hset =>
        simp only [and_eq_true, not_eq_true'] at hset
        have hs := @Balanced.set_gws o c h i q { q' with isGws := true } hq ha ht
          (hg ▸ hset.2) rfl (hok hset.1 (hg ▸ hset.2))
        rw [← ha] at hs
        split
        · next hactive =>
          rw [if_pos hactive, if_pos hactive] at hs
          exact hs
        · next hactive =>
          rw [if_neg hactive, if_neg hactive] at hs
          exact hs
      · split
        · next hclear =>
          simp only [and_eq_true, not_eq_true'] at hclear
          have hs := @Balanced.clear_gws o c h i q { q' with isGws := false } hq ha ht
            (hg ▸ hclear.2) rfl
          rw [← ha] at hs
          split
          · next hactive =>
            rw [if_pos hactive, if_pos hactive] at hs
            exact hs
          · next hactive =>
            rw [if_neg hactive, if_neg hactive] at hs
            exact hs
        · exact h.set_same hq ha ht hg

theorem updateQueue_balanced (hw : Hw) (i : Nat)
    (hok : ∀ q, c.qpd.queues[i]? = some q → q.gws = true → q.isGws = false → c.qpd.queues.countP (·.isGws) = 0) :
    Balanced o (updateQueue hw c (.listed i)).1 := by
  unfold updateQueue
  split
  · exact h
  · next q hq =>
    have hpre := h.of_same (unmapForUpdate_same hw c.dqm q)
    simp only
    split
    · exact hpre
    · have hc := @updateCounters_balanced o _ hpre i q { q with isActive := queueIsActive q } hq
        rfl rfl (hok q hq)
      exact hc.of_same (mapAfterUpdate_same hw _ _)

end

theorem setQueue_getElem?_ne {i j : Nat} (q : Queue) (h : i < j) :
    (c.setQueue (.listed i) q).qpd.queues[j]? = c.qpd.queues[j]? := by
  simp [Ctx.setQueue, h.ne]

theorem evictQueue_balanced (hw : Hw) {s : Ctx × Option Errno} (h : Balanced o s.1) (i : Nat) :
    Balanced o (evictQueue hw s i).1 := by
  unfold evictQueue
  split
  · exact h
  · next q hq =>
    split
    · next hactive =>
      have hd := @Balanced.deactivate o s.1 h i q { q with isEvicted := true, isActive := false } hq
        hactive rfl rfl
      exact hd.of_same (removeQueueIfMes_same hw i _)
    · exact h.set_same hq rfl rfl rfl

theorem evictProcessQueuesCpsch_balanced (h : Balanced o c) (hw : Hw) :
    Balanced o (evictProcessQueuesCpsch hw c).1 := by
  have hc : Balanced o { c with qpd := { c.qpd with evicted := c.qpd.evicted + 1 } } :=
    h.of_lists rfl rfl rfl rfl
  unfold evictProcessQueuesCpsch
  simp only
  split_ifs
  · exact hc
  · exact hc
  · refine Balanced.executeUnlessMes ?_ hw _
    exact foldl_range_inv (P := fun _ (s : Ctx × Option Errno) => Balanced o s.1)
      (fun i s hs => evictQueue_balanced hw hs i) hc _

theorem restoreQueue_balanced (hw : Hw) {s : Ctx × Option Errno} (h : Balanced o s.1) (i : Nat)
    (hok : ∀ q, s.1.qpd.queues[i]? = some q → q.isActive = false) :
    Balanced o (restoreQueue hw s i).1 ∧
      ∀ j, i < j → (restoreQueue hw s i).1.qpd.queues[j]? = s.1.qpd.queues[j]? := by
  unfold restoreQueue
  split
  · next q _ hq =>
    simp only
    split
    · have ha := @Balanced.activate o s.1 h i q { q with isEvicted := false, isActive := true } hq
        (hok q hq) rfl rfl rfl
      exact ⟨ha.of_same (addQueueIfMes_same hw i _ _), fun j hj => setQueue_getElem?_ne _ hj⟩
    · exact ⟨h.set_same hq rfl rfl rfl, fun j hj => setQueue_getElem?_ne _ hj⟩
  · exact ⟨h, fun j _ => rfl⟩

section
variable (h : Balanced o c)
include h

theorem restoreProcessQueuesCpsch_balanced (hw : Hw)
    (hok : c.qpd.evicted = 1 → c.qpd.drmPriv = true → ∀ q ∈ c.qpd.queues, q.isActive = false) :
    Balanced o (restoreProcessQueuesCpsch hw c).1 := by
  unfold restoreProcessQueuesCpsch
  split_ifs with h0 h1 hdrm
  · exact h
  · exact h.of_lists rfl rfl rfl rfl
  · exact h.of_lists rfl rfl rfl rfl
  · have hinactive := hok (by omega) (by simpa using hdrm)
    -- the queues still to be visited are as they were
    have hloop := foldl_range_inv (f := restoreQueue hw)
      (P := fun i s => Balanced o s.1 ∧ ∀ j, i ≤ j → s.1.qpd.queues[j]? = c.qpd.queues[j]?)
      (fun i s hs => by
        obtain ⟨hb, hrest⟩ := restoreQueue_balanced hw hs.1 i fun q hq =>
          hinactive q (mem_of_getElem? ((hs.2 i le_rfl).symm.trans hq))
        exact ⟨hb, fun j hj => (hrest j hj).trans (hs.2 j (by omega))⟩)
      (s := (c, none)) ⟨h, fun j _ => rfl⟩ c.qpd.queues.length
    simp only
    split
    · exact hloop.1
    · exact (hloop.1.executeUnlessMes hw none).of_lists rfl rfl rfl rfl

theorem suspendSingleQueue_balanced (hw : Hw) {i : Nat} (hq : c.qpd.queues[i]? = some q) :
    Balanced o (suspendSingleQueue hw c i q).1 := by
  have hset := @Balanced.set_same o c h i q { q with isSuspended := true } hq rfl rfl rfl
  have hq' : (c.setQueue (.listed i) { q with isSuspended := true }).qpd.queues[i]? =
      some { q with isSuspended := true } := by
    simp [Ctx.setQueue, (List.getElem?_eq_some_iff.mp hq).1]
  unfold suspendSingleQueue
  split
  · exact h
  · split
    · exact h
    · simp only
      split
      · next hactive =>
        have hr := hset.of_same (removeQueueIfMes_same hw i c.dqm)
        split
        · exact hr
        · exact @Balanced.deactivate o _ hr i { q with isSuspended := true }
            { q with isSuspended := true, isActive := false } hq' hactive rfl rfl
      · exact hset

theorem suspendQueues_balanced (hw : Hw) (requested : Nat → Bool) :
    Balanced o (suspendQueues hw requested c) :=
  suspendQueues_inv (fun _ _ _ hc hq => suspendSingleQueue_balanced hc hw hq)
    (fun _ r hc => hc.executeUnlessMes hw r) requested h

theorem resumeSingleQueue_balanced (hw : Hw) {i : Nat} (hq : c.qpd.queues[i]? = some q)
    (hok : q.isSuspended = true → q.isActive = false) :
    Balanced o (resumeSingleQueue hw c i q).1 ∧
      ∀ j, i < j → (resumeSingleQueue hw c i q).1.qpd.queues[j]? = c.qpd.queues[j]? := by
  have hset := @Balanced.set_same o c h i q { q with isSuspended := false } hq rfl rfl rfl
  have hq' : (c.setQueue (.listed i) { q with isSuspended := false }).qpd.queues[i]? =
      some { q with isSuspended := false } := by
    simp [Ctx.setQueue, (List.getElem?_eq_some_iff.mp hq).1]
  unfold resumeSingleQueue
  split
  · next hs =>
    simp only
    split
    · have hr := hset.of_same (addQueueIfMes_same hw i c.dqm { q with isSuspended := false })
      split
      · exact ⟨hr, fun j hj => setQueue_getElem?_ne _ hj⟩
      · refine ⟨@Balanced.activate o _ hr i { q with isSuspended := false }
          { q with isSuspended := false, isActive := true } hq' (hok hs) rfl rfl rfl,
          fun j hj => ?_⟩
        exact (setQueue_getElem?_ne _ hj).trans (setQueue_getElem?_ne _ hj)
    · exact ⟨hset, fun j hj => setQueue_getElem?_ne _ hj⟩
  · exact ⟨h, fun j _ => rfl⟩

theorem resumeQueues_balanced (hw : Hw) (requested : Option (Nat → Bool))
    (hok : ∀ i q, c.qpd.queues[i]? = some q → requested.all (· i) = true → q.isSuspended = true → q.isActive = false) :
    Balanced o (resumeQueues hw requested c) := by
  have hloop := foldl_range_inv (f := resumeQueue hw requested)
    (P := fun i s => Balanced o s.1 ∧ ∀ j, i ≤ j → s.1.qpd.queues[j]? = c.qpd.queues[j]?)
    (fun i s hs => by
      have hkeep : ∀ j, i + 1 ≤ j → s.1.qpd.queues[j]? = c.qpd.queues[j]? :=
        fun j hj => hs.2 j (by omega)
      unfold resumeQueue
      split
      · next q _ hq =>
        have hq' := (hs.2 i le_rfl).symm.trans hq
        cases requested with
        | none =>
          obtain ⟨hb, hrest⟩ := resumeSingleQueue_balanced hs.1 hw hq (hok i q hq' rfl)
          exact ⟨hb, fun j hj => (hrest j hj).trans (hkeep j hj)⟩
        | some ids =>
          simp only
          split
          · next hid =>
            obtain ⟨hb, hrest⟩ := resumeSingleQueue_balanced hs.1 hw hq (hok i q hq' hid)
            exact ⟨hb, fun j hj => (hrest j hj).trans (hkeep j hj)⟩
          · exact ⟨hs.1, hkeep⟩
      · exact ⟨hs.1, hkeep⟩)
    (s := (c, none, 0)) ⟨h, fun j _ => rfl⟩ c.qpd.queues.length
  unfold resumeQueues
  simp only
  split
  · exact hloop.1
  · exact hloop.1.executeUnlessMes hw _

theorem createKernelQueueCpsch_balanced (hw : Hw) (kq : PrivQueue) :
    Balanced o (createKernelQueueCpsch hw c kq).1 := by
  unfold createKernelQueueCpsch
  split
  · exact h
  · next hlt =>
    have hp := h.push_kernel kq (h.room hlt)
    exact (hp.of_same (executeQueuesCpsch_same hw _)).of_lists rfl rfl rfl rfl

theorem destroyKernelQueueCpsch_balanced (hw : Hw) (i : Nat) :
    Balanced o (destroyKernelQueueCpsch hw c i) := by
  unfold destroyKernelQueueCpsch
  split
  · exact h
  · next kq hkq =>
    have hlen := length_eraseIdx_add_one (List.getElem?_eq_some_iff.mp hkq).1
    have hr := (h.remove_kernel hlen.symm).of_same
      ((executeQueuesCpsch_same hw (decrementQueueCount c .diq false).dqm).with_total (· - 1))
    exact hr.of_lists rfl rfl rfl rfl

theorem cleanKernelQueues_balanced : Balanced o (cleanKernelQueues c) := by
  unfold cleanKernelQueues
  generalize hl : c.qpd.privQueues = l
  induction l generalizing c with
  | nil => exact h
  | cons kq l ih =>
    rw [foldl_cons]
    refine ih ?_ ?_
    · have hr := @Balanced.remove_kernel o c h c.qpd.privQueues.tail (by simp [hl])
      exact hr.of_lists rfl rfl rfl rfl
    · simp [decrementQueueCount, hl]

end

theorem clearQueues_balanced (hw : Hw) {l : List Queue} {s : Ctx × Nat} (h : Balanced o s.1)
    (hl : s.1.qpd.queues = l) : Balanced o (l.foldl (clearQueue hw) s).1 := by
  induction l generalizing s with
  | nil => exact h
  | cons q l ih =>
    rw [foldl_cons]
    have hq : s.1.qpd.queues[0]? = some q := by simp [hl]
    refine ih ?_ ?_
    · have hr := h.remove hq rfl
      unfold clearQueue
      cases hactive : q.isActive with
      | false =>
        rw [hactive] at hr
        exact hr
      | true =>
        rw [hactive] at hr
        exact hr.of_same ((removeQueueIfMes_same hw s.2 _).with_total (· - 1))
    · unfold clearQueue
      cases q.isActive <;> simp [hl, decrementQueueCount, Ctx.removeQueue]

theorem unregisterProcess_same (dqm : Dqm) (pid : Nat) :
    dqm.SameCounters (unregisterProcess dqm pid) := by
  unfold unregisterProcess
  split <;> constructor <;> rfl

theorem processTerminationCpsch_balanced (h : Balanced o c) (hw : Hw) (pid : Nat) :
    Balanced o (processTerminationCpsch hw c pid) := by
  unfold processTerminationCpsch
  refine Balanced.executeUnlessMes ?_ hw none
  refine Balanced.of_same ?_ (unregisterProcess_same _ pid)
  exact clearQueues_balanced hw (cleanKernelQueues_balanced h) rfl

/-- The states from which an operation keeps the counters right. -/
def ProcOp.Ok (c : Ctx) : ProcOp → Prop
  | .destroyQueue _ _ (.orphan _) => False
  | .updateQueue _ (.orphan _) => False
  | .updateQueue _ (.listed i) => ∀ q ∈ c.qpd.queues[i]?,
    q.gws = true → q.isGws = false → c.qpd.queues.countP (·.isGws) = 0
  | .restore _ =>
    c.qpd.evicted = 1 → c.qpd.drmPriv = true → ∀ q ∈ c.qpd.queues, q.isActive = false
  | .resume _ requested =>
    ∀ i : Fin c.qpd.queues.length, requested.all (· i) = true →
      (c.qpd.queues.get i).isSuspended = true → (c.qpd.queues.get i).isActive = false
  | _ => True

instance ProcOp.Ok.decidable (c : Ctx) : ∀ op : ProcOp, Decidable (op.Ok c)
  | .destroyQueue _ _ (.orphan _) => isFalse id
  | .updateQueue _ (.orphan _) => isFalse id
  | .updateQueue _ (.listed i) => inferInstanceAs (Decidable (∀ q ∈ c.qpd.queues[i]?,
      q.gws = true → q.isGws = false → c.qpd.queues.countP (·.isGws) = 0))
  | .restore _ => inferInstanceAs (Decidable (c.qpd.evicted = 1 → c.qpd.drmPriv = true →
      ∀ q ∈ c.qpd.queues, q.isActive = false))
  | .resume _ requested =>
    inferInstanceAs (Decidable (∀ i : Fin c.qpd.queues.length, requested.all (· i) = true →
      (c.qpd.queues.get i).isSuspended = true → (c.qpd.queues.get i).isActive = false))
  | .destroyQueue _ _ (.listed _) | .register _ | .unregister | .acquireVm
  | .createQueue _ _ _ _ _ _ _ | .setProperties _ _ _ _ | .setGws _ _ _ | .clearException _
  | .evict _ | .suspend _ _ | .createKernelQueue _ _ | .destroyKernelQueue _ _
  | .terminate _ => isTrue trivial

theorem apply_balanced (h : Balanced o c) (pid : Nat) {op : ProcOp} (hok : op.Ok c) :
    Balanced o (op.apply pid c) := by
  cases op with
  | register kzalloc =>
    refine h.of_same ?_
    unfold registerProcess
    split <;> constructor <;> rfl
  | unregister => exact h.of_same (unregisterProcess_same _ pid)
  | acquireVm => exact h.of_lists rfl rfl rfl rfl
  | createQueue hw resources criu type size address percent =>
    simp only [ProcOp.apply]
    split
    · exact createQueueCpsch_balanced h hw resources criu rfl
    · exact h
  | destroyQueue hw debugTrapEnabled ref =>
    cases ref with
    | listed i => exact pqmDestroyQueue_balanced h hw debugTrapEnabled i
    | orphan i => exact hok.elim
  | setProperties ref size address percent =>
    simp only [ProcOp.apply, QueueManager.setProperties]
    split
    · exact h
    · next q hq =>
      cases ref with
      | listed i => exact h.set_same hq rfl rfl rfl
      | orphan i => exact h.of_lists rfl rfl rfl rfl
  | setGws attach ref gwsSize =>
    simp only [ProcOp.apply, QueueManager.setGws]
    split
    · exact h
    · next q hq =>
      split_ifs
      · exact h
      · exact h
      · split
        · exact h
        · cases ref with
          | listed i =>
            have hs := @Balanced.set_same o c h i q { q with gws := gwsSize ≠ 0 } hq rfl rfl rfl
            exact hs.of_lists rfl rfl rfl rfl
          | orphan i => exact h.of_lists rfl rfl rfl rfl
  | updateQueue hw ref =>
    cases ref with
    | listed i =>
      exact updateQueue_balanced h hw i hok
    | orphan i => exact hok.elim
  | clearException ref =>
    simp only [ProcOp.apply]
    split
    · exact h
    · next q hq =>
      cases ref with
      | listed i => exact h.set_same hq rfl rfl rfl
      | orphan i => exact h.of_lists rfl rfl rfl rfl
  | evict hw => exact evictProcessQueuesCpsch_balanced h hw
  | restore hw => exact restoreProcessQueuesCpsch_balanced h hw hok
  | suspend hw requested => exact suspendQueues_balanced h hw requested
  | resume hw requested =>
    refine resumeQueues_balanced h hw requested fun i q hq => ?_
    obtain ⟨hi, rfl⟩ := List.getElem?_eq_some_iff.mp hq
    exact hok ⟨i, hi⟩
  | createKernelQueue hw kq => exact createKernelQueueCpsch_balanced h hw kq
  | destroyKernelQueue hw i => exact destroyKernelQueueCpsch_balanced h hw i
  | terminate hw => exact processTerminationCpsch_balanced h hw pid

end Balanced

/-! ## Runs -/

/-- The counters of the manager are the numbers of queues they stand for. -/
structure Counted (s : State) : Prop where
  active : s.dqm.activeQueueCount.toNat = (s.qpds.map Qpd.active).sum
  cp : s.dqm.activeCpQueueCount.toNat = (s.qpds.map Qpd.activeCp).sum
  gws : s.dqm.gwsQueueCount.toNat = (s.qpds.map Qpd.activeGws).sum
  total : s.dqm.totalQueueCount.toNat = (s.qpds.map Qpd.live).sum
  queueCount : ∀ qpd ∈ s.qpds, qpd.queueCount.toNat = qpd.queues.length
  mapped : ∀ qpd ∈ s.qpds, qpd.mappedGwsQueue = decide (0 < qpd.activeGws)

structure Inv (s : State) : Prop where
  active : s.dqm.activeQueueCount = UInt32.ofNat (s.qpds.map Qpd.active).sum
  cp : s.dqm.activeCpQueueCount = UInt32.ofNat (s.qpds.map Qpd.activeCp).sum
  gws : s.dqm.gwsQueueCount = UInt32.ofNat (s.qpds.map Qpd.activeGws).sum
  total : s.dqm.totalQueueCount = UInt32.ofNat (s.qpds.map Qpd.live).sum
  bound : (s.qpds.map Qpd.live).sum ≤ s.dqm.maxQueues.val
  queueCount : ∀ qpd ∈ s.qpds, qpd.queueCount = UInt32.ofNat qpd.queues.length
  mapped : ∀ qpd ∈ s.qpds, qpd.mappedGwsQueue = decide (0 < qpd.activeGws)
  unique : ∀ qpd ∈ s.qpds, qpd.queues.countP (·.isGws) ≤ 1

/-- What the processes other than `pid` contribute. -/
def others (qpds : List Qpd) (pid : Nat) : Tally :=
  { active := ((qpds.eraseIdx pid).map Qpd.active).sum
    cp := ((qpds.eraseIdx pid).map Qpd.activeCp).sum
    gws := ((qpds.eraseIdx pid).map Qpd.activeGws).sum
    live := ((qpds.eraseIdx pid).map Qpd.live).sum }

variable {s : State}

theorem Inv.balanced (hi : Inv s) {pid : Nat} {qpd : Qpd} (hq : s.qpds[pid]? = some qpd) :
    Balanced (others s.qpds pid) ⟨s.dqm, qpd⟩ := by
  have hmem := mem_of_getElem? hq
  exact
    { active := hi.active.trans (by rw [← sum_map_eraseIdx_add _ hq]; rfl)
      cp := hi.cp.trans (by rw [← sum_map_eraseIdx_add _ hq]; rfl)
      gws := hi.gws.trans (by rw [← sum_map_eraseIdx_add _ hq]; rfl)
      total := hi.total.trans (by rw [← sum_map_eraseIdx_add _ hq]; rfl)
      bound := (sum_map_eraseIdx_add Qpd.live hq).trans_le hi.bound
      queueCount := hi.queueCount qpd hmem
      mapped := hi.mapped qpd hmem
      unique := hi.unique qpd hmem }

theorem Balanced.inv (hi : Inv s) {pid : Nat} {qpd : Qpd} (hq : s.qpds[pid]? = some qpd) {c : Ctx}
    (h : Balanced (others s.qpds pid) c) : Inv ⟨c.dqm, s.qpds.set pid c.qpd⟩ := by
  have hmem : ∀ {P : Qpd → Prop}, (∀ p ∈ s.qpds, P p) → P c.qpd →
      ∀ p ∈ s.qpds.set pid c.qpd, P p := by
    intro P hall hnew p hp
    rcases mem_or_eq_of_mem_set hp with hold | rfl
    · exact hall p hold
    · exact hnew
  exact
    { active := h.active.trans (by rw [sum_map_set _ hq]; rfl)
      cp := h.cp.trans (by rw [sum_map_set _ hq]; rfl)
      gws := h.gws.trans (by rw [sum_map_set _ hq]; rfl)
      total := h.total.trans (by rw [sum_map_set _ hq]; rfl)
      bound := (sum_map_set Qpd.live hq).trans_le h.bound
      queueCount := hmem hi.queueCount h.queueCount
      mapped := hmem hi.mapped h.mapped
      unique := hmem hi.unique h.unique }

theorem Inv.of_same (hi : Inv s) {dqm : Dqm} (hs : s.dqm.SameCounters dqm) :
    Inv { s with dqm := dqm } :=
  { active := hs.active.trans hi.active
    cp := hs.cp.trans hi.cp
    gws := hs.gws.trans hi.gws
    total := hs.total.trans hi.total
    bound := by rw [hs.max]; exact hi.bound
    queueCount := hi.queueCount
    mapped := hi.mapped
    unique := hi.unique }

def Op.Ok (s : State) : Op → Prop
  | .proc pid op => ∀ qpd ∈ s.qpds[pid]?, op.Ok ⟨s.dqm, qpd⟩
  | _ => True

instance Op.Ok.decidable (s : State) : ∀ op : Op, Decidable (op.Ok s)
  | .proc pid op => inferInstanceAs (Decidable (∀ qpd ∈ s.qpds[pid]?, op.Ok ⟨s.dqm, qpd⟩))
  | .newProcess _ | .start _ | .stop _ _ | .preReset => isTrue trivial

theorem step_inv (s : State) (op : Op) (hi : Inv s) (hok : op.Ok s) : Inv (step s op) := by
  cases op with
  | newProcess drmPriv =>
    have hmem : ∀ {P : Qpd → Prop}, (∀ p ∈ s.qpds, P p) → P (newQpd drmPriv) →
        ∀ p ∈ s.qpds ++ [newQpd drmPriv], P p := by
      intro P hall hnew p hp
      rcases mem_append.mp hp with hold | hlast
      · exact hall p hold
      · exact mem_singleton.mp hlast ▸ hnew
    have hsum : ∀ f : Qpd → Nat, f (newQpd drmPriv) = 0 →
        ((s.qpds ++ [newQpd drmPriv]).map f).sum = (s.qpds.map f).sum := by
      intro f hf
      simp [hf]
    exact
      { active := hi.active.trans (by rw [← hsum _ rfl]; rfl)
        cp := hi.cp.trans (by rw [← hsum _ rfl]; rfl)
        gws := hi.gws.trans (by rw [← hsum _ rfl]; rfl)
        total := hi.total.trans (by rw [← hsum _ rfl]; rfl)
        bound := (hsum Qpd.live rfl).trans_le hi.bound
        queueCount := hmem hi.queueCount rfl
        mapped := hmem hi.mapped rfl
        unique := hmem hi.unique (Nat.zero_le 1) }
  | proc pid op =>
    simp only [step]
    split
    · exact hi
    · next qpd hq => exact (apply_balanced (hi.balanced hq) pid (hok qpd hq)).inv hi hq
  | start hw =>
    refine hi.of_same ?_
    unfold startCpsch
    simp only
    split
    · constructor <;> rfl
    · refine Dqm.SameCounters.trans ?_ (executeQueuesCpsch_same hw _)
      constructor <;> rfl
  | stop hw mesRemove =>
    refine hi.of_same ?_
    unfold stopCpsch
    split
    · exact .rfl
    · simp only
      split_ifs
      · constructor <;> rfl
      · exact (removeQueueMes_same mesRemove s.dqm).trans ⟨rfl, rfl, rfl, rfl, rfl⟩
      · exact (unmapQueuesCpsch_same hw s.dqm).trans ⟨rfl, rfl, rfl, rfl, rfl⟩
  | preReset => exact hi.of_same ⟨rfl, rfl, rfl, rfl, rfl⟩

theorem init_inv (enableMes : Bool) (maxQueues : Fin (512 * 1024 + 1)) :
    Inv (init enableMes maxQueues) := by
  constructor <;> simp [init]

theorem Inv.counted (hi : Inv s) : Counted s := by
  have hmax := s.dqm.maxQueues.isLt
  have hbound := hi.bound
  have hle : ∀ f : Qpd → Nat, (∀ qpd : Qpd, f qpd ≤ qpd.live) →
      (s.qpds.map f).sum ≤ (s.qpds.map Qpd.live).sum := fun f hf =>
    sum_le_sum fun qpd _ => hf qpd
  have hexact : ∀ n, n ≤ (s.qpds.map Qpd.live).sum → (UInt32.ofNat n).toNat = n := fun n hn =>
    UInt32.toNat_ofNat_of_lt' (by simp only [UInt32.size]; omega)
  constructor
  · rw [hi.active]
    exact hexact _ (hle _ fun qpd => Nat.add_le_add_right countP_le_length _)
  · rw [hi.cp]
    exact hexact _ (hle _ fun qpd => Nat.add_le_add_right countP_le_length _)
  · rw [hi.gws]
    exact hexact _ (hle _ fun qpd => countP_le_length.trans (Nat.le_add_right _ _))
  · rw [hi.total]
    exact hexact _ le_rfl
  · intro qpd hqpd
    rw [hi.queueCount qpd hqpd]
    obtain ⟨pid, hpid⟩ := getElem?_of_mem hqpd
    have hone := sum_map_eraseIdx_add Qpd.live hpid
    have hlive : qpd.queues.length ≤ qpd.live := Nat.le_add_right _ _
    exact hexact _ (by omega)
  · exact hi.mapped

/-- In every run whose steps are taken from `Ok` states, the counters are the
numbers of active queues, active CP-type queues, active GWS queues and live
queues, and each process' queue count is the length of its list. -/
theorem queueCounts_run (enableMes : Bool) (maxQueues : Fin (512 * 1024 + 1)) (ops : List Op)
    (hok : StepsOk step (fun s op => op.Ok s) (init enableMes maxQueues) ops) :
    Counted (run step (init enableMes maxQueues) ops) :=
  (run_inv_of_stepsOk step_inv (init_inv enableMes maxQueues) hok).counted

/-- One MES queue is created, evicted, restored, suspended, resumed and
destroyed. -/
def exRun : List Op :=
  [.start .good, .newProcess true, .proc 0 (.register true),
    .proc 0 (.createQueue .good none false .compute 4096 0x1000 100),
    .proc 0 (.evict .good), .proc 0 (.restore .good), .proc 0 (.clearException (.listed 0)),
    .proc 0 (.suspend .good fun _ => true), .proc 0 (.resume .good none)]

theorem queueCounts_run_exRun :
    StepsOk step (fun s op => op.Ok s) (init true 127) exRun ∧
    (run step (init true 127) exRun).dqm.activeQueueCount = 1 ∧
    Counted (run step (init true 127) exRun) :=
  ⟨by decide, by decide, queueCounts_run true 127 exRun (by decide)⟩

def exHwAddFails : Hw :=
  { Hw.good with addHwQueue := fun _ => some .einval }

def exRetry : List Op :=
  [.start .good, .newProcess true, .proc 0 (.register true),
    .proc 0 (.createQueue .good none false .compute 4096 0x1000 100),
    .proc 0 (.evict .good), .proc 0 (.restore exHwAddFails), .proc 0 (.restore .good)]

/-- The retry counts the only queue of the device twice. -/
theorem restore_retry_counts_twice :
    ¬ ∀ (enableMes : Bool) (maxQueues : Fin (512 * 1024 + 1)) (ops : List Op),
      Counted (run step (init enableMes maxQueues) ops) := by
  intro h
  have hactive := (h true 127 exRetry).active
  revert hactive
  decide

end Amdkfd.QueueManager

import Amdkfd.QueueManager.Model

/-!
# Evicted queues stay parked

While a process is evicted from a device its queues carry `is_evicted` and are
inactive. `Qpd.Parked` is that invariant, and every queue operation other than
the eviction itself keeps it: a queue becomes active only when
`QUEUE_IS_ACTIVE` holds of it, which asks for `is_evicted` to be clear, and a
new queue is created with `is_evicted` set.
-/

namespace Amdkfd.QueueManager

open Lib List

/-- The process is evicted `n` times. When that is not zero its queues are
marked evicted and inactive; a process without a VM on the device has no queues
there. -/
structure Qpd.Parked (n : Nat) (qpd : Qpd) : Prop where
  evicted : qpd.evicted = n
  quiet : 0 < n → ∀ q ∈ qpd.queues, q.isEvicted = true ∧ q.isActive = false
  vm : qpd.drmPriv = false → qpd.queues = []

/-- What `q` has to meet to stand in the place of `ref` while the process is
evicted `n` times. -/
def Queue.Fits (n : Nat) (ref : QueueRef) (q : Queue) : Prop :=
  ∀ i, ref = .listed i → 0 < n → q.isEvicted = true ∧ q.isActive = false

theorem unmarked_of_queueIsActive {q : Queue} (h : queueIsActive q = true) :
    q.isEvicted = false := by
  refine Bool.eq_false_of_not_eq_true fun hmarked => ?_
  simp [queueIsActive, hmarked] at h

/-- A queue that was in `qpd` with the same mark, or is new and has the mark of the process. It is
active only if it was, or does not have the mark. -/
def Queue.From (qpd : Qpd) (q : Queue) : Prop :=
  (∃ q0 ∈ qpd.queues, q.isEvicted = q0.isEvicted ∧
      (q.isActive = true → q0.isActive = true ∨ q.isEvicted = false)) ∨
    qpd.drmPriv = true ∧ q.isEvicted = decide (0 < qpd.evicted) ∧
      (q.isActive = true → q.isEvicted = false)

/-- What becomes of a process that is not evicted or restored. -/
def Qpd.Follows (qpd qpd' : Qpd) : Prop :=
  qpd'.evicted = qpd.evicted ∧ (qpd'.drmPriv = false → qpd.drmPriv = false) ∧
    ∀ q ∈ qpd'.queues, q.From qpd

variable {n : Nat} {qpd : Qpd}

section Queue
variable {c : Ctx} {ref : QueueRef} {q q' : Queue} {qpd' : Qpd}

theorem Qpd.Follows.refl (qpd : Qpd) : qpd.Follows qpd :=
  ⟨rfl, id, fun q hq => .inl ⟨q, hq, rfl, .inl⟩⟩

theorem Queue.From.change (h : q.From qpd) (hevicted : q'.isEvicted = q.isEvicted)
    (hactive : q'.isActive = true → q.isActive = true ∨ q'.isEvicted = false) : q'.From qpd := by
  rcases h with ⟨q0, hmem, hmark, hwas⟩ | ⟨hvm, hmark, hunmarked⟩
  · refine .inl ⟨q0, hmem, hevicted.trans hmark, fun hq => ?_⟩
    rcases hactive hq with hq | hq
    · exact (hwas hq).imp_right hevicted.trans
    · exact .inr hq
  · refine .inr ⟨hvm, hevicted.trans hmark, fun hq => ?_⟩
    rcases hactive hq with hq | hq
    · exact hevicted.trans (hunmarked hq)
    · exact hq

theorem Queue.From.fits (h : q.From qpd) (hparked : qpd.Parked n) (ref : QueueRef) :
    q.Fits n ref := by
  intro i _ hpos
  have hmarked : q.isEvicted = true := by
    rcases h with ⟨q0, hmem, hmark, -⟩ | ⟨-, hmark, -⟩
    · exact hmark.trans (hparked.quiet hpos q0 hmem).1
    · exact hmark.trans (decide_eq_true (hparked.evicted ▸ hpos))
  refine ⟨hmarked, Bool.eq_false_of_not_eq_true fun hactive => ?_⟩
  have hunmarked : q.isEvicted = false := by
    rcases h with ⟨q0, hmem, -, hwas⟩ | ⟨-, -, hunmarked⟩
    · refine (hwas hactive).resolve_left fun hq => ?_
      rw [(hparked.quiet hpos q0 hmem).2] at hq
      cases hq
    · exact hunmarked hactive
  rw [hmarked] at hunmarked
  cases hunmarked

theorem Qpd.Follows.parked (h : qpd.Follows qpd') (hparked : qpd.Parked n) : qpd'.Parked n := by
  obtain ⟨hevicted, hdrm, hqueues⟩ := h
  refine ⟨hevicted.trans hparked.evicted,
    fun hpos q hq => (hqueues q hq).fits hparked (.listed 0) 0 rfl hpos, fun hvm => ?_⟩
  refine eq_nil_iff_forall_not_mem.mpr fun q hq => ?_
  rcases hqueues q hq with ⟨q0, hmem, -⟩ | ⟨hno, -⟩
  · rw [hparked.vm (hdrm hvm)] at hmem
    cases hmem
  · rw [hdrm hvm] at hno
    cases hno

section
variable (h : qpd.Follows c.qpd)
include h

theorem Qpd.Follows.queue {i : Nat} (hq : c.qpd.queues[i]? = some q) : q.From qpd :=
  h.2.2 q (mem_of_getElem? hq)

theorem Qpd.Follows.setQueue (hq : ∀ i, ref = .listed i → q.From qpd) :
    qpd.Follows (c.setQueue ref q).qpd := by
  cases ref with
  | orphan i => exact h
  | listed i =>
    refine ⟨h.1, h.2.1, fun x hx => ?_⟩
    rcases mem_or_eq_of_mem_set hx with hx | rfl
    · exact h.2.2 x hx
    · exact hq i rfl

theorem Qpd.Follows.replace (hq : c.qpd.queue? ref = some q) (hevicted : q'.isEvicted = q.isEvicted)
    (hactive : q'.isActive = true → q.isActive = true ∨ q'.isEvicted = false) :
    qpd.Follows (c.setQueue ref q').qpd := by
  refine h.setQueue fun i hi => ?_
  subst hi
  exact (h.queue hq).change hevicted hactive

theorem Qpd.Follows.sub (hsub : qpd'.queues ⊆ c.qpd.queues)
    (hevicted : qpd'.evicted = c.qpd.evicted) (hdrm : qpd'.drmPriv = c.qpd.drmPriv) :
    qpd.Follows qpd' :=
  ⟨hevicted.trans h.1, fun hvm => h.2.1 (hdrm ▸ hvm), fun q hq => h.2.2 q (hsub hq)⟩

end

end Queue

/-! ## The queue operations -/

variable {i : Nat} {q : Queue} {c : Ctx}

theorem addQueueIfMes_ok {hw : Hw} {dqm : Dqm}
    (h : dqm.enableMes = true → dqm.isHwsHang = false ∧ (q.type = .compute ∨ q.type = .sdma) ∧
      hw.addHwQueue i = none) : addQueueIfMes hw i dqm q = (dqm, none) := by
  unfold addQueueIfMes
  split
  · next hon =>
    obtain ⟨hhang, htype, hhw⟩ := h hon
    have hknown : ¬(q.type ≠ .compute ∧ q.type ≠ .sdma) := by
      rintro ⟨hcompute, hsdma⟩
      exact htype.elim hcompute hsdma
    unfold addQueueMes
    rw [if_neg (Bool.eq_false_iff.mp hhang), if_neg hknown, hhw]
  · rfl

theorem executeUnlessMes_qpd (hw : Hw) (c : Ctx) (r : Option Errno) :
    (c.executeUnlessMes hw r).1.qpd = c.qpd := by
  unfold Ctx.executeUnlessMes
  split
  · rfl
  · rfl

theorem createQueueCpsch_follows (hw : Hw) (resources : Option Errno) (criu : Bool) (q : Queue)
    (hvm : c.qpd.drmPriv = true) :
    c.qpd.Follows (createQueueCpsch hw resources criu c q).1.qpd := by
  have hcons (q : Queue) (hq : q.From c.qpd) :
      c.qpd.Follows { c.qpd with queues := q :: c.qpd.queues } := by
    refine ⟨rfl, id, fun x hx => ?_⟩
    rcases mem_cons.mp hx with rfl | hx
    · exact hq
    · exact (Qpd.Follows.refl _).2.2 x hx
  have henqueue (q : Queue) (hq : q.From c.qpd) :
      c.qpd.Follows (enqueueQueue hw c q).1.qpd := by
    unfold enqueueQueue
    split
    · simp only
      split
      · exact .refl _
      · exact hcons q hq
    · exact hcons q hq
  unfold createQueueCpsch
  split
  · exact .refl _
  · split
    · exact .refl _
    · refine henqueue _ (.inr ⟨hvm, rfl, fun hactive => ?_⟩)
      cases criu with
      | true => cases hactive
      | false => exact unmarked_of_queueIsActive (q := { q with isEvicted := _ }) hactive

theorem pqmDestroyQueue_follows (hw : Hw) (debugTrapEnabled : Bool) (ref : QueueRef)
    (h : qpd.Follows c.qpd) : qpd.Follows (pqmDestroyQueue hw debugTrapEnabled c ref).qpd := by
  have hdestroy : qpd.Follows (destroyQueueCpsch hw debugTrapEnabled c ref).1.qpd := by
    unfold destroyQueueCpsch
    split
    · exact h
    · next q hq =>
      have hset : qpd.Follows (c.setQueue ref { q with isBeingDestroyed := true }).qpd :=
        h.replace hq rfl .inl
      split
      · exact h
      · split
        · exact hset
        · have hremoved : qpd.Follows
              ((c.setQueue ref { q with isBeingDestroyed := true }).removeQueue ref).qpd := by
            refine hset.sub ?_ rfl rfl
            cases ref with
            | listed i => exact eraseIdx_subset
            | orphan i => exact Subset.refl _
          split
          · exact hremoved
          · exact hremoved
  unfold pqmDestroyQueue
  split
  · exact h
  · simp only
    split
    · exact hdestroy
    · split
      · exact hdestroy
      · exact hdestroy

theorem updateQueue_follows (hw : Hw) (ref : QueueRef) (h : qpd.Follows c.qpd) :
    qpd.Follows (updateQueue hw c ref).1.qpd := by
  unfold updateQueue
  split
  · exact h
  · next q hq =>
    simp only
    split
    · exact h
    · have hset (dqm : Dqm) (gws : Bool) : qpd.Follows ((⟨dqm, c.qpd⟩ : Ctx).setQueue ref
          { q with isActive := queueIsActive q, isGws := gws }).qpd :=
        Qpd.Follows.replace (c := ⟨_, _⟩) h hq rfl fun hq => .inr (unmarked_of_queueIsActive hq)
      unfold updateCounters
      repeat' split
      · exact hset _ q.isGws
      · exact hset _ q.isGws
      · exact hset _ true
      · exact hset _ true
      · exact hset _ false
      · exact hset _ false
      · exact hset _ q.isGws

/-! ## Suspension -/

theorem suspendSingleQueue_follows (hw : Hw) (h : qpd.Follows c.qpd)
    (hq : c.qpd.queues[i]? = some q) : qpd.Follows (suspendSingleQueue hw c i q).1.qpd := by
  have hset : qpd.Follows (c.setQueue (.listed i) { q with isSuspended := true }).qpd :=
    h.setQueue fun _ _ => (h.queue hq).change rfl .inl
  unfold suspendSingleQueue
  split
  · exact h
  · split
    · exact h
    · simp only
      split
      · split
        · exact hset
        · exact Qpd.Follows.setQueue (c := ⟨_, _⟩) hset fun _ _ => (h.queue hq).change rfl nofun
      · exact hset

theorem resumeSingleQueue_follows (hw : Hw) (h : qpd.Follows c.qpd)
    (hq : c.qpd.queues[i]? = some q) : qpd.Follows (resumeSingleQueue hw c i q).1.qpd := by
  have hset : qpd.Follows (c.setQueue (.listed i) { q with isSuspended := false }).qpd :=
    h.setQueue fun _ _ => (h.queue hq).change rfl .inl
  unfold resumeSingleQueue
  split
  · simp only
    split
    · next hactive =>
      split
      · exact hset
      · exact Qpd.Follows.setQueue (c := ⟨_, _⟩) hset fun _ _ =>
          (h.queue hq).change rfl fun _ => .inr (unmarked_of_queueIsActive hactive)
    · exact hset
  · exact h

/-! ## Termination -/

theorem cleanKernelQueues_follows (h : qpd.Follows c.qpd) :
    qpd.Follows (cleanKernelQueues c).qpd := by
  unfold cleanKernelQueues
  generalize c.qpd.privQueues = kqs
  induction kqs generalizing c with
  | nil => exact h
  | cons kq kqs ih => exact ih h

theorem clearQueue_follows (hw : Hw) {s : Ctx × Nat} (q : Queue) (h : qpd.Follows s.1.qpd) :
    qpd.Follows (clearQueue hw s q).1.qpd := by
  have hremoved : qpd.Follows (s.1.removeQueue (.listed 0)).qpd :=
    h.sub eraseIdx_subset rfl rfl
  unfold clearQueue
  simp only
  split
  · exact hremoved
  · exact hremoved

theorem processTerminationCpsch_follows (hw : Hw) (pid : Nat) (h : qpd.Follows c.qpd) :
    qpd.Follows (processTerminationCpsch hw c pid).qpd := by
  have hqueues := run_inv (P := fun s => qpd.Follows s.1.qpd)
    (fun s q hs => clearQueue_follows hw q hs) (s := (cleanKernelQueues c, 0))
    (cleanKernelQueues_follows h) (cleanKernelQueues c).qpd.queues
  unfold processTerminationCpsch
  rw [executeUnlessMes_qpd]
  exact hqueues

/-! ## Every queue operation -/

/-- The operations on queues, as opposed to the evictions and restores. A queue
is created on a device whose VM the process has acquired:
`kfd_ioctl_create_queue` binds the process to the device first. -/
def ProcOp.IsQueueOp (qpd : Qpd) : ProcOp → Prop
  | .evict _ => False
  | .restore _ => False
  | .createQueue .. => qpd.drmPriv = true
  | _ => True

instance (qpd : Qpd) (op : ProcOp) : Decidable (op.IsQueueOp qpd) := by
  cases op <;> unfold ProcOp.IsQueueOp <;> infer_instance

theorem ProcOp.apply_follows (pid : Nat) (op : ProcOp) (hop : op.IsQueueOp c.qpd) :
    c.qpd.Follows (op.apply pid c).qpd := by
  have h : c.qpd.Follows c.qpd := .refl c.qpd
  cases op with
  | register kzalloc | unregister => exact h
  | acquireVm => exact ⟨rfl, nofun, h.2.2⟩
  | createQueue hw resources criu type size address percent =>
    simp only [ProcOp.apply]
    split
    · exact createQueueCpsch_follows hw resources criu _ hop
    · exact h
  | destroyQueue hw debugTrapEnabled ref => exact pqmDestroyQueue_follows hw debugTrapEnabled ref h
  | setProperties ref size address percent =>
    simp only [ProcOp.apply, QueueManager.setProperties]
    split
    · exact h
    · next q hq => exact h.replace hq rfl .inl
  | setGws attach ref gwsSize =>
    simp only [ProcOp.apply, QueueManager.setGws]
    split
    · exact h
    · next q hq =>
      have hset : c.qpd.Follows (c.setQueue ref { q with gws := gwsSize ≠ 0 }).qpd :=
        h.replace hq rfl .inl
      repeat' split
      · exact h
      · exact h
      · exact h
      · exact hset
  | updateQueue hw ref => exact updateQueue_follows hw ref h
  | clearException ref =>
    simp only [ProcOp.apply]
    split
    · exact h
    · next q hq => exact h.replace hq rfl .inl
  | evict hw | restore hw => cases hop
  | suspend hw requested =>
    exact suspendQueues_inv (fun _ _ _ hc hq => suspendSingleQueue_follows hw hc hq)
      (fun _ _ hc => by rwa [executeUnlessMes_qpd]) requested h
  | resume hw requested =>
    exact resumeQueues_inv (fun _ _ _ hc hq => resumeSingleQueue_follows hw hc hq)
      (fun _ _ hc => by rwa [executeUnlessMes_qpd]) requested h
  | createKernelQueue hw kq =>
    simp only [ProcOp.apply, createKernelQueueCpsch]
    split
    · exact h
    · exact h
  | destroyKernelQueue hw i =>
    simp only [ProcOp.apply, destroyKernelQueueCpsch]
    split
    · exact h
    · exact h
  | terminate hw => exact processTerminationCpsch_follows hw pid h

theorem ProcOp.apply_parked (pid : Nat) (op : ProcOp) (hop : op.IsQueueOp c.qpd)
    (h : c.qpd.Parked n) : (op.apply pid c).qpd.Parked n :=
  (op.apply_follows pid hop).parked h

/-! ## Eviction -/

def Qpd.ParkedBelow (i : Nat) (qpd : Qpd) : Prop :=
  ∀ k, k < i → ∀ q, qpd.queues[k]? = some q → q.isEvicted = true ∧ q.isActive = false

theorem Qpd.ParkedBelow.set {qpd qpd' : Qpd} (h : qpd.ParkedBelow i)
    (hqueues : qpd'.queues = qpd.queues.set i q) (hq : q.isEvicted = true ∧ q.isActive = false) :
    qpd'.ParkedBelow (i + 1) := by
  intro k hk x hx
  rw [hqueues, getElem?_set] at hx
  split at hx
  · split at hx
    · cases hx
      exact hq
    · cases hx
  · exact h k (by omega) x hx

/-- What an eviction loop has done before index `i`, started from `qpd0`. -/
structure Qpd.EvictedBelow (i : Nat) (qpd qpd0 : Qpd) : Prop where
  below : qpd.ParkedBelow i
  length : qpd.queues.length = qpd0.queues.length
  evicted : qpd.evicted = qpd0.evicted
  drmPriv : qpd.drmPriv = qpd0.drmPriv

section Loop
variable {i : Nat} {qpd0 qpd qpd' : Qpd}

theorem Qpd.EvictedBelow.start (qpd : Qpd) : qpd.EvictedBelow 0 qpd :=
  ⟨fun k hk => absurd hk (Nat.not_lt_zero k), rfl, rfl, rfl⟩

theorem Qpd.EvictedBelow.skip (h : qpd.EvictedBelow i qpd0) (hnone : qpd.queues[i]? = none) :
    qpd.EvictedBelow (i + 1) qpd0 := by
  refine ⟨fun k hk q hq => ?_, h.length, h.evicted, h.drmPriv⟩
  have hlen := getElem?_eq_none_iff.mp hnone
  obtain ⟨hlt, -⟩ := List.getElem?_eq_some_iff.mp hq
  exact h.below k (by omega) q hq

theorem Qpd.EvictedBelow.park (h : qpd.EvictedBelow i qpd0) {q : Queue}
    (hq : q.isEvicted = true ∧ q.isActive = false) (hqueues : qpd'.queues = qpd.queues.set i q)
    (hevicted : qpd'.evicted = qpd.evicted) (hdrm : qpd'.drmPriv = qpd.drmPriv) :
    qpd'.EvictedBelow (i + 1) qpd0 :=
  ⟨h.below.set hqueues hq, by rw [hqueues, length_set, h.length], hevicted.trans h.evicted,
    hdrm.trans h.drmPriv⟩

theorem Qpd.EvictedBelow.parked (h : qpd.EvictedBelow i qpd0) (hi : i = qpd0.queues.length)
    (hevicted : qpd0.evicted = n) (hvm : qpd0.drmPriv = false → qpd0.queues = []) :
    qpd.Parked n := by
  subst hi
  refine ⟨h.evicted.trans hevicted, fun _ q hq => ?_, fun hno => ?_⟩
  · obtain ⟨k, hk⟩ := mem_iff_getElem?.mp hq
    obtain ⟨hlt, -⟩ := List.getElem?_eq_some_iff.mp hk
    exact h.below k (h.length ▸ hlt) q hk
  · have hlen := h.length
    rw [hvm (h.drmPriv ▸ hno)] at hlen
    exact eq_nil_of_length_eq_zero hlen

end Loop

theorem evictQueue_evictedBelow (hw : Hw) {i : Nat} {qpd0 : Qpd} {s : Ctx × Option Errno}
    (h : s.1.qpd.EvictedBelow i qpd0) : (evictQueue hw s i).1.qpd.EvictedBelow (i + 1) qpd0 := by
  unfold evictQueue
  split
  · next hnone => exact h.skip hnone
  · next q hq =>
    split
    · exact h.park (q := { q with isEvicted := true, isActive := false }) ⟨rfl, rfl⟩ rfl rfl rfl
    · next hactive =>
      exact h.park (q := { q with isEvicted := true }) ⟨rfl, by simpa using hactive⟩ rfl rfl rfl

theorem evictProcessQueuesCpsch_parked (hw : Hw) {c : Ctx} (h : c.qpd.Parked n) :
    (evictProcessQueuesCpsch hw c).1.qpd.Parked (n + 1) := by
  have hevicted := h.evicted
  unfold evictProcessQueuesCpsch
  simp only
  split
  · next hpos => exact ⟨by simp [hevicted], fun _ => h.quiet (hevicted ▸ hpos), h.vm⟩
  · split
    · next hvm => exact ⟨by simp [hevicted], fun _ q hq => by simp [h.vm hvm] at hq, h.vm⟩
    · have hloop := foldl_range_inv (f := evictQueue hw)
        (P := fun i s => s.1.qpd.EvictedBelow i { c.qpd with evicted := c.qpd.evicted + 1 })
        (fun i s hs => evictQueue_evictedBelow hw hs)
        (s := ({ c with qpd := { c.qpd with evicted := c.qpd.evicted + 1 } }, none))
        (.start _) c.qpd.queues.length
      rw [executeUnlessMes_qpd]
      exact hloop.parked rfl (by simp [hevicted]) h.vm

end Amdkfd.QueueManager

import Amdkfd.QueueManager.Model
import Amdkfd.Lib.Count

/-!
# Counters in step with the queue lists

The manager counts active queues, active CP-type queues, active GWS queues and
live queues. `Balanced` says that the counters of the manager are those of one
process' queue lists plus a fixed remainder, which is what the other processes
contribute.
-/

namespace Amdkfd.QueueManager

open Lib List Bool

/-! ## What the counters count -/

def Queue.activeCp (q : Queue) : Bool :=
  q.isActive && q.type.isCp

def Queue.activeGws (q : Queue) : Bool :=
  q.isActive && q.isGws

def Qpd.active (qpd : Qpd) : Nat :=
  qpd.queues.countP (·.isActive) + qpd.privQueues.length

/-- The active CP-type queues of a process; its kernel queues are DIQs. -/
def Qpd.activeCp (qpd : Qpd) : Nat :=
  qpd.queues.countP (·.activeCp) + qpd.privQueues.length

def Qpd.activeGws (qpd : Qpd) : Nat :=
  qpd.queues.countP (·.activeGws)

def Qpd.live (qpd : Qpd) : Nat :=
  qpd.queues.length + qpd.privQueues.length

/-- What the other processes contribute to the counters. -/
structure Tally where
  active : Nat
  cp : Nat
  gws : Nat
  live : Nat

/-- The counters are those of the process plus `o`. -/
structure Balanced (o : Tally) (c : Ctx) : Prop where
  active : c.dqm.activeQueueCount = UInt32.ofNat (o.active + c.qpd.active)
  cp : c.dqm.activeCpQueueCount = UInt32.ofNat (o.cp + c.qpd.activeCp)
  gws : c.dqm.gwsQueueCount = UInt32.ofNat (o.gws + c.qpd.activeGws)
  total : c.dqm.totalQueueCount = UInt32.ofNat (o.live + c.qpd.live)
  bound : o.live + c.qpd.live ≤ c.dqm.maxQueues.val
  queueCount : c.qpd.queueCount = UInt32.ofNat c.qpd.queues.length
  mapped : c.qpd.mappedGwsQueue = decide (0 < c.qpd.activeGws)
  unique : c.qpd.queues.countP (·.isGws) ≤ 1

theorem ofNat_inc_if (b : Bool) {n : UInt32} {k k' : Nat} (h : n = UInt32.ofNat k)
    (hk : k' = k + if b then 1 else 0) : (if b then n + 1 else n) = UInt32.ofNat k' := by
  subst h hk
  cases b
  · rfl
  · simp only [if_true, UInt32.ofNat_add]
    rfl

theorem ofNat_dec_if (b : Bool) {n : UInt32} {k k' : Nat} (h : n = UInt32.ofNat k)
    (hk : k = k' + if b then 1 else 0) : (if b then n - 1 else n) = UInt32.ofNat k' := by
  subst h hk
  cases b
  · rfl
  · simp only [if_true, UInt32.ofNat_add]
    exact UInt32.add_sub_cancel _ _

theorem Qpd.activeGws_le (qpd : Qpd) : qpd.activeGws ≤ qpd.queues.countP (·.isGws) := by
  refine countP_mono_left fun q _ h => ?_
  simp only [Queue.activeGws, and_eq_true] at h
  exact h.2

/-! ## Scheduler requests -/

/-- The two managers have the same counters. -/
structure Dqm.SameCounters (d d' : Dqm) : Prop where
  active : d'.activeQueueCount = d.activeQueueCount
  cp : d'.activeCpQueueCount = d.activeCpQueueCount
  gws : d'.gwsQueueCount = d.gwsQueueCount
  total : d'.totalQueueCount = d.totalQueueCount
  max : d'.maxQueues = d.maxQueues

theorem Dqm.SameCounters.rfl {d : Dqm} : d.SameCounters d :=
  ⟨Eq.refl _, Eq.refl _, Eq.refl _, Eq.refl _, Eq.refl _⟩

theorem Dqm.SameCounters.trans {d d' d'' : Dqm} (h : d.SameCounters d')
    (h' : d'.SameCounters d'') : d.SameCounters d'' :=
  ⟨h'.active.trans h.active, h'.cp.trans h.cp, h'.gws.trans h.gws, h'.total.trans h.total,
    h'.max.trans h.max⟩

theorem addQueueMes_same (hw : Option Errno) (dqm : Dqm) (q : Queue) :
    dqm.SameCounters (addQueueMes hw dqm q).1 := by
  unfold addQueueMes
  split
  · exact .rfl
  · split
    · exact .rfl
    · split <;> constructor <;> rfl

theorem removeQueueMes_same (hw : Option Errno) (dqm : Dqm) :
    dqm.SameCounters (removeQueueMes hw dqm).1 := by
  unfold removeQueueMes
  split
  · exact .rfl
  · split <;> constructor <;> rfl

section
variable (hw : Hw)
include hw

theorem mapQueuesCpsch_same (dqm : Dqm) : dqm.SameCounters (mapQueuesCpsch hw dqm).1 := by
  unfold mapQueuesCpsch
  split_ifs
  · exact .rfl
  · exact .rfl
  · exact .rfl
  · split <;> constructor <;> rfl

theorem unmapQueuesCpsch_same (dqm : Dqm) : dqm.SameCounters (unmapQueuesCpsch hw dqm).1 := by
  unfold unmapQueuesCpsch
  split_ifs
  · exact .rfl
  · exact .rfl
  · exact .rfl
  · split
    · exact .rfl
    · constructor <;> rfl
  · split <;> constructor <;> rfl

theorem executeQueuesCpsch_same (dqm : Dqm) : dqm.SameCounters (executeQueuesCpsch hw dqm).1 := by
  unfold executeQueuesCpsch
  have h := unmapQueuesCpsch_same hw dqm
  split
  · exact .rfl
  · split
    · next dqm' e heq => rwa [heq] at h
    · next dqm' heq =>
      rw [heq] at h
      exact h.trans (mapQueuesCpsch_same hw dqm')

theorem addQueueIfMes_same (i : Nat) (dqm : Dqm) (q : Queue) :
    dqm.SameCounters (addQueueIfMes hw i dqm q).1 := by
  unfold addQueueIfMes
  split
  · exact addQueueMes_same _ dqm q
  · exact .rfl

theorem removeQueueIfMes_same (i : Nat) (dqm : Dqm) :
    dqm.SameCounters (removeQueueIfMes hw i dqm).1 := by
  unfold removeQueueIfMes
  split
  · exact removeQueueMes_same _ dqm
  · exact .rfl

theorem scheduleQueue_same (dqm : Dqm) (q : Queue) :
    dqm.SameCounters (scheduleQueue hw dqm q).1 := by
  unfold scheduleQueue
  split
  · exact addQueueMes_same _ dqm q
  · exact executeQueuesCpsch_same hw dqm

theorem unscheduleQueue_same (dqm : Dqm) : dqm.SameCounters (unscheduleQueue hw dqm).1 := by
  unfold unscheduleQueue
  split
  · exact removeQueueMes_same _ dqm
  · exact executeQueuesCpsch_same hw dqm

theorem unmapForUpdate_same (dqm : Dqm) (q : Queue) :
    dqm.SameCounters (unmapForUpdate hw dqm q).1 := by
  unfold unmapForUpdate
  split_ifs
  · exact removeQueueMes_same _ dqm
  · exact .rfl
  · exact unmapQueuesCpsch_same hw dqm

theorem mapAfterUpdate_same (dqm : Dqm) (q : Queue) :
    dqm.SameCounters (mapAfterUpdate hw dqm q).1 := by
  unfold mapAfterUpdate
  split_ifs
  · exact addQueueMes_same _ dqm q
  · exact .rfl
  · exact mapQueuesCpsch_same hw dqm

end

section Balanced
variable {o : Tally} {c : Ctx}

theorem Balanced.of_same (h : Balanced o c) {dqm : Dqm} (hs : c.dqm.SameCounters dqm) :
    Balanced o { c with dqm := dqm } :=
  { active := hs.active.trans h.active
    cp := hs.cp.trans h.cp
    gws := hs.gws.trans h.gws
    total := hs.total.trans h.total
    bound := by rw [hs.max]; exact h.bound
    queueCount := h.queueCount
    mapped := h.mapped
    unique := h.unique }

theorem Balanced.executeUnlessMes (h : Balanced o c) (hw : Hw) (r : Option Errno) :
    Balanced o (c.executeUnlessMes hw r).1 := by
  unfold Ctx.executeUnlessMes
  split
  · exact h
  · exact h.of_same (executeQueuesCpsch_same hw c.dqm)

/-! ## One queue -/

variable {q : Queue}

theorem setQueue_tally {i : Nat} (q' : Queue) (hq : c.qpd.queues[i]? = some q) :
    (c.setQueue (.listed i) q').qpd.active + (if q.isActive then 1 else 0) =
      c.qpd.active + (if q'.isActive then 1 else 0) ∧
    (c.setQueue (.listed i) q').qpd.activeCp + (if q.activeCp then 1 else 0) =
      c.qpd.activeCp + (if q'.activeCp then 1 else 0) ∧
    (c.setQueue (.listed i) q').qpd.activeGws + (if q.activeGws then 1 else 0) =
      c.qpd.activeGws + (if q'.activeGws then 1 else 0) ∧
    (c.setQueue (.listed i) q').qpd.queues.countP (·.isGws) + (if q.isGws then 1 else 0) =
      c.qpd.queues.countP (·.isGws) + (if q'.isGws then 1 else 0) := by
  have h1 := countP_set_add (b := q') (·.isActive) hq
  have h2 := countP_set_add (b := q') (·.activeCp) hq
  have h3 := countP_set_add (b := q') (·.activeGws) hq
  have h4 := countP_set_add (b := q') (·.isGws) hq
  simp only [Ctx.setQueue, Qpd.active, Qpd.activeCp, Qpd.activeGws]
  omega

theorem setQueue_live (i : Nat) (q : Queue) :
    (c.setQueue (.listed i) q).qpd.live = c.qpd.live := by
  simp [Ctx.setQueue, Qpd.live]

theorem setQueue_length (i : Nat) (q : Queue) :
    (c.setQueue (.listed i) q).qpd.queues.length = c.qpd.queues.length := by
  simp [Ctx.setQueue]

theorem Balanced.set_same (h : Balanced o c) {i : Nat} {q q' : Queue}
    (hq : c.qpd.queues[i]? = some q) (ha : q'.isActive = q.isActive) (ht : q'.type = q.type)
    (hg : q'.isGws = q.isGws) : Balanced o (c.setQueue (.listed i) q') := by
  have hcp : q'.activeCp = q.activeCp := by simp only [Queue.activeCp, ha, ht]
  have hgws : q'.activeGws = q.activeGws := by simp only [Queue.activeGws, ha, hg]
  obtain ⟨h1, h2, h3, h4⟩ := setQueue_tally q' hq
  rw [ha] at h1
  rw [hcp] at h2
  rw [hgws] at h3
  rw [hg] at h4
  constructor
  · rw [Nat.add_right_cancel h1]; exact h.active
  · rw [Nat.add_right_cancel h2]; exact h.cp
  · rw [Nat.add_right_cancel h3]; exact h.gws
  · rw [setQueue_live]; exact h.total
  · rw [setQueue_live]; exact h.bound
  · rw [setQueue_length]; exact h.queueCount
  · rw [Nat.add_right_cancel h3]; exact h.mapped
  · rw [Nat.add_right_cancel h4]; exact h.unique

theorem mapped_inc_if (b : Bool) {m : Bool} {k k' : Nat} (h : m = decide (0 < k))
    (hk : k' = k + if b then 1 else 0) : (if b then true else m) = decide (0 < k') := by
  subst h hk
  cases b <;> simp

theorem mapped_dec_if (b : Bool) {m : Bool} {k k' : Nat} (h : m = decide (0 < k)) (hle : k ≤ 1)
    (hk : k = k' + if b then 1 else 0) : (if b then false else m) = decide (0 < k') := by
  subst h hk
  cases b
  · simp
  · simp only [if_true] at hle ⊢
    exact (decide_eq_false (by omega)).symm

section
variable (h : Balanced o c)
include h

theorem Balanced.deactivate {i : Nat} {q q' : Queue} (hq : c.qpd.queues[i]? = some q)
    (hactive : q.isActive = true) (ha : q'.isActive = false) (hg : q'.isGws = q.isGws) :
    Balanced o (decrementQueueCount (c.setQueue (.listed i) q') q.type q.isGws) := by
  obtain ⟨h1, h2, h3, h4⟩ := setQueue_tally q' hq
  have hle := c.qpd.activeGws_le
  have huniq := h.unique
  simp only [Queue.activeCp, Queue.activeGws, ha, hactive, hg, Bool.true_and, Bool.false_and,
    false_eq_true, if_true, if_false, Nat.add_right_cancel_iff, add_zero] at h1 h2 h3 h4
  exact
    { active := ofNat_dec_if true h.active (congrArg (o.active + ·) h1.symm)
      cp := ofNat_dec_if _ h.cp (by rw [← h2, add_assoc]; rfl)
      gws := ofNat_dec_if _ h.gws (by rw [← h3, add_assoc]; rfl)
      total := h.total.trans (by rw [← setQueue_live i q']; rfl)
      bound := (setQueue_live i q').symm ▸ h.bound
      queueCount := h.queueCount.trans (by rw [← setQueue_length i q']; rfl)
      mapped := mapped_dec_if _ h.mapped (by omega) h3.symm
      unique := h4.symm ▸ huniq }

theorem Balanced.activate {i : Nat} {q q' : Queue} (hq : c.qpd.queues[i]? = some q)
    (hinactive : q.isActive = false) (ha : q'.isActive = true) (ht : q'.type = q.type)
    (hg : q'.isGws = q.isGws) :
    Balanced o (incrementQueueCount (c.setQueue (.listed i) q') q.type q.isGws) := by
  obtain ⟨h1, h2, h3, h4⟩ := setQueue_tally q' hq
  have huniq := h.unique
  simp only [Queue.activeCp, Queue.activeGws, ha, hinactive, ht, hg, Bool.true_and, Bool.false_and,
    false_eq_true, if_true, if_false, Nat.add_right_cancel_iff, add_zero] at h1 h2 h3 h4
  exact
    { active := ofNat_inc_if true h.active (congrArg (o.active + ·) h1)
      cp := ofNat_inc_if _ h.cp (by rw [add_assoc, ← h2]; rfl)
      gws := ofNat_inc_if _ h.gws (by rw [add_assoc, ← h3]; rfl)
      total := h.total.trans (by rw [← setQueue_live i q']; rfl)
      bound := (setQueue_live i q').symm ▸ h.bound
      queueCount := h.queueCount.trans (by rw [← setQueue_length i q']; rfl)
      mapped := mapped_inc_if _ h.mapped h3
      unique := h4.symm ▸ huniq }

theorem Balanced.remove_inactive {i : Nat} (hq : c.qpd.queues[i]? = some q)
    (hinactive : q.isActive = false) :
    Balanced o
      { dqm := { c.dqm with totalQueueCount := c.dqm.totalQueueCount - 1 }
        qpd := (c.removeQueue (.listed i)).qpd } := by
  have h1 := countP_eraseIdx_add (·.isActive) hq
  have h2 := countP_eraseIdx_add (·.activeCp) hq
  have h3 := countP_eraseIdx_add (·.activeGws) hq
  have h4 := countP_eraseIdx_add (·.isGws) hq
  have hlen := length_eraseIdx_add_one (List.getElem?_eq_some_iff.mp hq).1
  have huniq := h.unique
  have hbound := h.bound
  rw [Qpd.live] at hbound
  rw [hinactive, if_neg Bool.false_ne_true] at h1
  rw [Queue.activeCp, hinactive, Bool.false_and, if_neg Bool.false_ne_true] at h2
  rw [Queue.activeGws, hinactive, Bool.false_and, if_neg Bool.false_ne_true] at h3
  exact
    { active := h.active.trans (by simp only [Ctx.removeQueue, Qpd.active, ← h1, add_zero])
      cp := h.cp.trans (by simp only [Ctx.removeQueue, Qpd.activeCp, ← h2, add_zero])
      gws := h.gws.trans (by simp only [Ctx.removeQueue, Qpd.activeGws, ← h3, add_zero])
      total := ofNat_dec_if true h.total
        (by simp only [Ctx.removeQueue, Qpd.live, if_true]; omega)
      bound := by simp only [Ctx.removeQueue, Qpd.live]; omega
      queueCount := ofNat_dec_if true h.queueCount hlen.symm
      mapped := h.mapped.trans (by rw [Qpd.activeGws, ← h3]; rfl)
      unique := by simp only [Ctx.removeQueue]; omega }

theorem Balanced.remove {i : Nat} (hq : c.qpd.queues[i]? = some q) {c' : Ctx}
    (hc' : c' = if q.isActive then decrementQueueCount (c.removeQueue (.listed i)) q.type q.isGws else c.removeQueue (.listed i)) :
    Balanced o { c' with dqm := { c'.dqm with
      totalQueueCount := c'.dqm.totalQueueCount - 1 } } := by
  subst hc'
  cases hactive : q.isActive with
  | false => exact h.remove_inactive hq hactive
  | true =>
    have hi := (List.getElem?_eq_some_iff.mp hq).1
    have hd := @Balanced.deactivate o c h i q { q with isActive := false } hq hactive rfl rfl
    have hr := hd.remove_inactive (i := i) (q := { q with isActive := false })
      (by simp [decrementQueueCount, Ctx.setQueue, hi]) rfl
    simpa only [Ctx.removeQueue, decrementQueueCount, Ctx.setQueue, eraseIdx_set_eq, if_true]
      using hr

theorem Balanced.push_inactive (hinactive : q.isActive = false) (hgws : q.isGws = false)
    (hroom : o.live + c.qpd.live < c.dqm.maxQueues.val) :
    Balanced o
      { dqm := { c.dqm with totalQueueCount := c.dqm.totalQueueCount + 1 }
        qpd :=
          { c.qpd with queues := q :: c.qpd.queues, queueCount := c.qpd.queueCount + 1 } } := by
  rw [Qpd.live] at hroom
  exact
    { active := h.active.trans (by simp [Qpd.active, hinactive])
      cp := h.cp.trans (by simp [Qpd.activeCp, Queue.activeCp, hinactive])
      gws := h.gws.trans (by simp [Qpd.activeGws, Queue.activeGws, hinactive])
      total := ofNat_inc_if true h.total
        (by simp only [Qpd.live, length_cons, if_true]; omega)
      bound := by simp only [Qpd.live, length_cons]; omega
      queueCount := ofNat_inc_if true h.queueCount (length_cons)
      mapped := h.mapped.trans
        (by simp [Qpd.activeGws, Queue.activeGws, hinactive])
      unique := by simpa [countP_cons, hgws] using h.unique }

theorem Balanced.push (hgws : q.isGws = false) (hroom : o.live + c.qpd.live < c.dqm.maxQueues.val)
    {c1 c' : Ctx}
    (hc1 : c1 = { c with qpd := { c.qpd with queues := q :: c.qpd.queues, queueCount := c.qpd.queueCount + 1 } })
    (hc' : c' = if q.isActive then incrementQueueCount c1 q.type q.isGws else c1) :
    Balanced o { c' with dqm := { c'.dqm with
      totalQueueCount := c'.dqm.totalQueueCount + 1 } } := by
  subst hc' hc1
  cases hactive : q.isActive with
  | false => exact h.push_inactive hactive hgws hroom
  | true =>
    have hp := h.push_inactive (q := { q with isActive := false }) rfl hgws hroom
    exact @Balanced.activate o _ hp 0 { q with isActive := false } q rfl rfl hactive rfl rfl

theorem Balanced.room (hlt : ¬ c.dqm.maxQueues.val ≤ c.dqm.totalQueueCount.toNat) :
    o.live + c.qpd.live < c.dqm.maxQueues.val := by
  have hmax := c.dqm.maxQueues.isLt
  have hbound := h.bound
  rw [h.total, UInt32.toNat_ofNat_of_lt' (by simp [UInt32.size]; omega)] at hlt
  omega

theorem Balanced.push_kernel (kq : PrivQueue) (hroom : o.live + c.qpd.live < c.dqm.maxQueues.val) :
    Balanced o (incrementQueueCount
      { dqm := { c.dqm with totalQueueCount := c.dqm.totalQueueCount + 1 }
        qpd := { c.qpd with privQueues := kq :: c.qpd.privQueues } } .diq false) := by
  rw [Qpd.live] at hroom
  exact
    { active := ofNat_inc_if true h.active (by rw [add_assoc]; rfl)
      cp := ofNat_inc_if true h.cp (by rw [add_assoc]; rfl)
      gws := h.gws
      total := ofNat_inc_if true h.total (by rw [add_assoc]; rfl)
      bound := by
        simp only [incrementQueueCount, Qpd.live, length_cons]
        omega
      queueCount := h.queueCount
      mapped := h.mapped
      unique := h.unique }

theorem Balanced.remove_kernel {privQueues : List PrivQueue}
    (hlen : c.qpd.privQueues.length = privQueues.length + 1) :
    Balanced o
      { dqm := { (decrementQueueCount c .diq false).dqm with
          totalQueueCount := c.dqm.totalQueueCount - 1 }
        qpd := { c.qpd with privQueues := privQueues } } := by
  have hbound := h.bound
  rw [Qpd.live] at hbound
  exact
    { active := ofNat_dec_if true h.active
        (by simp only [Qpd.active, if_true]; omega)
      cp := ofNat_dec_if true h.cp
        (by simp only [Qpd.activeCp, if_true]; omega)
      gws := h.gws
      total := ofNat_dec_if true h.total
        (by simp only [Qpd.live, if_true]; omega)
      bound := by
        simp only [decrementQueueCount, Qpd.live]
        omega
      queueCount := h.queueCount
      mapped := h.mapped
      unique := h.unique }

/-- The counters do not depend on the other fields of the process. -/
theorem Balanced.of_lists {qpd : Qpd} (hq : qpd.queues = c.qpd.queues)
    (hp : qpd.privQueues = c.qpd.privQueues) (hc : qpd.queueCount = c.qpd.queueCount)
    (hm : qpd.mappedGwsQueue = c.qpd.mappedGwsQueue) : Balanced o { c with qpd := qpd } :=
  { active := h.active.trans (by simp only [Qpd.active, hq, hp])
    cp := h.cp.trans (by simp only [Qpd.activeCp, hq, hp])
    gws := h.gws.trans (by simp only [Qpd.activeGws, hq])
    total := h.total.trans (by simp only [Qpd.live, hq, hp])
    bound := by simpa only [Qpd.live, hq, hp] using h.bound
    queueCount := by simp only [hc, hq]; exact h.queueCount
    mapped := by simp only [hm, Qpd.activeGws, hq]; exact h.mapped
    unique := by simpa only [hq] using h.unique }

theorem Balanced.change_gws {i : Nat} {q q' : Queue} (hq : c.qpd.queues[i]? = some q)
    (ha : q'.isActive = q.isActive) (ht : q'.type = q.type) {gws : UInt32} {mapped : Bool}
    (hgws : gws = UInt32.ofNat (o.gws + (c.setQueue (.listed i) q').qpd.activeGws))
    (hmapped : mapped = decide (0 < (c.setQueue (.listed i) q').qpd.activeGws))
    (hunique : (c.setQueue (.listed i) q').qpd.queues.countP (·.isGws) ≤ 1) :
    Balanced o
      { dqm := { c.dqm with gwsQueueCount := gws }
        qpd := { (c.setQueue (.listed i) q').qpd with mappedGwsQueue := mapped } } := by
  have hcp : q'.activeCp = q.activeCp := by simp only [Queue.activeCp, ha, ht]
  obtain ⟨h1, h2, -, -⟩ := setQueue_tally q' hq
  rw [ha] at h1
  rw [hcp] at h2
  exact
    { active := h.active.trans (congrArg _ (congrArg _ (Nat.add_right_cancel h1).symm))
      cp := h.cp.trans (congrArg _ (congrArg _ (Nat.add_right_cancel h2).symm))
      gws := hgws
      total := h.total.trans (by rw [← setQueue_live i q']; rfl)
      bound := (setQueue_live i q').symm ▸ h.bound
      queueCount := h.queueCount.trans (by rw [← setQueue_length i q'])
      mapped := hmapped
      unique := hunique }

theorem Balanced.set_gws {i : Nat} {q q' : Queue} (hq : c.qpd.queues[i]? = some q)
    (ha : q'.isActive = q.isActive) (ht : q'.type = q.type) (hg : q.isGws = false)
    (hg' : q'.isGws = true) (hnone : c.qpd.queues.countP (·.isGws) = 0) :
    Balanced o
      { dqm := { c.dqm with gwsQueueCount :=
          if q.isActive then c.dqm.gwsQueueCount + 1 else c.dqm.gwsQueueCount }
        qpd := { (c.setQueue (.listed i) q').qpd with mappedGwsQueue :=
          if q.isActive then true else c.qpd.mappedGwsQueue } } := by
  obtain ⟨-, -, h3, h4⟩ := setQueue_tally q' hq
  simp only [Queue.activeGws, ha, hg, hg', Bool.and_false, Bool.and_true, false_eq_true,
    if_true, if_false, add_zero] at h3 h4
  exact h.change_gws hq ha ht (ofNat_inc_if _ h.gws (by rw [h3, add_assoc]))
    (mapped_inc_if _ h.mapped h3) (by omega)

theorem Balanced.clear_gws {i : Nat} {q q' : Queue} (hq : c.qpd.queues[i]? = some q)
    (ha : q'.isActive = q.isActive) (ht : q'.type = q.type) (hg : q.isGws = true)
    (hg' : q'.isGws = false) :
    Balanced o
      { dqm := { c.dqm with gwsQueueCount :=
          if q.isActive then c.dqm.gwsQueueCount - 1 else c.dqm.gwsQueueCount }
        qpd := { (c.setQueue (.listed i) q').qpd with mappedGwsQueue :=
          if q.isActive then false else c.qpd.mappedGwsQueue } } := by
  obtain ⟨-, -, h3, h4⟩ := setQueue_tally q' hq
  have hle := c.qpd.activeGws_le
  have hunique := h.unique
  simp only [Queue.activeGws, ha, hg, hg', Bool.and_false, Bool.and_true, false_eq_true,
    if_true, if_false, add_zero] at h3 h4
  exact h.change_gws hq ha ht (ofNat_dec_if _ h.gws (by rw [← h3, add_assoc]))
    (mapped_dec_if _ h.mapped (by omega) h3.symm) (by omega)

end

end Balanced

end Amdkfd.QueueManager

import Amdkfd.NoHws.Resources
import Amdkfd.QueueManager.Marked
import Amdkfd.QueueManager.QueueCounts

/-!
# Queues created during an eviction

`create_queue_nocpsch` samples `qpd->evicted` before it releases the lock, and puts the queue
on the list after it has the lock again. An eviction or a restore in between does not see the
queue. `create_queue_cpsch` samples with the lock held up to the end.
-/

namespace Amdkfd.NoHws

open Lib Function List

/-! ## What the marks depend on -/

structure Marks where
  evicted : Nat → Nat
  queues : List Queue
  pending : List Queue

def Dqm.marks (s : Dqm) : Marks :=
  { evicted := fun p => (s.qpd p).evicted, queues := s.queues, pending := s.pending }

section Frame
variable {d : Device} {s s' : Dqm} {q q' : Queue}

theorem mapQpd_marks (s : Dqm) (p : Nat) {f : Qpd → Qpd}
    (hf : ∀ qpd, (f qpd).evicted = qpd.evicted) :
    (s.mapQpd p f).marks = s.marks := by
  have hevicted : (s.mapQpd p f).marks.evicted = s.marks.evicted := by
    funext x
    show (update s.qpd p (f (s.qpd p)) x).evicted = (s.qpd x).evicted
    rcases eq_or_ne x p with rfl | hne
    · rw [update_self, hf]
    · rw [update_of_ne hne]
  exact congrArg (fun evicted => Marks.mk evicted s.queues s.pending) hevicted

theorem deallocateVmid_marks (s : Dqm) (p : Nat) : (deallocateVmid s p).marks = s.marks :=
  mapQpd_marks _ p fun _ => rfl

theorem releaseVmid_marks (s : Dqm) (p : Nat) : (releaseVmid s p).marks = s.marks := by
  unfold releaseVmid
  split
  · exact deallocateVmid_marks s p
  · rfl

theorem allocateVmid_marks {p : Nat} (h : allocateVmid d s p = .ok s') : s'.marks = s.marks := by
  unfold allocateVmid at h
  split at h
  · cases h
  · cases h
    exact mapQpd_marks _ p fun _ => rfl

theorem deallocateSlot_marks (d : Device) (s : Dqm) (q : Queue) :
    (deallocateSlot d s q).marks = s.marks := by
  unfold deallocateSlot deallocateSdmaQueue
  repeat' split
  all_goals rfl

theorem deallocateDoorbell_marks (d : Device) (s : Dqm) (q : Queue) :
    (deallocateDoorbell d s q).marks = s.marks := by
  unfold deallocateDoorbell
  split
  · rfl
  · exact mapQpd_marks s q.process fun _ => rfl

theorem undoCreate_marks (d : Device) (s : Dqm) (q : Queue) : (undoCreate d s q).marks = s.marks :=
  (releaseVmid_marks _ _).trans
    ((deallocateSlot_marks d _ q).trans (deallocateDoorbell_marks d s q))

theorem countQueue_marks (s : Dqm) (p : Nat) (n : Int) : (s.countQueue p n).marks = s.marks :=
  mapQpd_marks s p fun _ => rfl

theorem setReset_marks (s : Dqm) (p : Nat) (b : Bool) : (s.setReset p b).marks = s.marks :=
  mapQpd_marks s p fun _ => rfl

theorem incrementQueueCount_marks (s : Dqm) (q : Queue) :
    (incrementQueueCount s q).marks = s.marks :=
  mapQpd_marks _ q.process fun _ => rfl

theorem decrementQueueCount_marks (s : Dqm) (q : Queue) :
    (decrementQueueCount s q).marks = s.marks :=
  mapQpd_marks _ q.process fun _ => rfl

theorem foldl_marks {count : Dqm → Queue → Dqm} (hcount : ∀ s q, (count s q).marks = s.marks)
    (l : List Queue) (s : Dqm) : (l.foldl count s).marks = s.marks := by
  induction l generalizing s with
  | nil => rfl
  | cons q l ih => exact (ih _).trans (hcount s q)

/-- What the allocators leave alone in the queue. -/
structure SameMark (q q' : Queue) : Prop where
  process : q'.process = q.process
  isEvicted : q'.isEvicted = q.isEvicted
  isActive : q'.isActive = q.isActive

theorem allocateHqd_marks (h : allocateHqd d s q = .ok (s', q')) :
    s'.marks = s.marks ∧ SameMark q q' := by
  unfold allocateHqd at h
  split at h
  · cases h
  · cases h
    exact ⟨rfl, rfl, rfl, rfl⟩

theorem allocateSdmaQueue_marks {restoreId : Option Nat} {stray : Bool}
    (h : allocateSdmaQueue d s q restoreId stray = .ok (s', q')) :
    s'.marks = s.marks ∧ SameMark q q' := by
  have hmap : ∀ {x : Except Errno (Bitmap × Nat)} {f : Bitmap × Nat → Dqm × Queue},
      (∀ r, (f r).1.marks = s.marks ∧ SameMark q (f r).2) → x.map f = .ok (s', q') →
      s'.marks = s.marks ∧ SameMark q q' := by
    intro x f hf hx
    cases x with
    | error e => cases hx
    | ok r =>
      have hr : f r = (s', q') := Except.ok.inj hx
      have hfr := hf r
      rw [hr] at hfr
      exact hfr
  unfold allocateSdmaQueue at h
  split at h
  · exact hmap (fun _ => ⟨rfl, rfl, rfl, rfl⟩) h
  · exact hmap (fun _ => ⟨rfl, rfl, rfl, rfl⟩) h
  · cases h
    exact ⟨rfl, rfl, rfl, rfl⟩

theorem allocateSlot_marks {a : CreateArgs} (h : allocateSlot d s q a = .ok (s', q')) :
    s'.marks = s.marks ∧ SameMark q q' := by
  unfold allocateSlot at h
  split at h
  · exact allocateHqd_marks h
  · split at h
    · exact allocateSdmaQueue_marks h
    · cases h
      exact ⟨rfl, rfl, rfl, rfl⟩

theorem allocateDoorbell_marks {restoreId : Option Nat} {stray : Bool}
    (h : allocateDoorbell d s q restoreId stray = .ok (s', q')) :
    s'.marks = s.marks ∧ SameMark q q' := by
  unfold allocateDoorbell at h
  simp only at h
  repeat' split at h
  all_goals cases h
  all_goals refine ⟨?_, rfl, rfl, rfl⟩
  all_goals first
    | rfl
    | exact mapQpd_marks s q.process fun _ => rfl

theorem createQueueBegin_marks (d : Device) (s : Dqm) (a : CreateArgs) :
    (createQueueBegin d s a).1.marks = s.marks ∨
    ∃ q, SameMark (a.queue (s.qpd a.process).evicted) q ∧
      (createQueueBegin d s a).1.marks = { s.marks with pending := q :: s.pending } := by
  unfold createQueueBegin
  split
  · exact Or.inl rfl
  · split
    · exact Or.inl rfl
    · next s1 hvmid =>
      have hs1 : s1.marks = s.marks := by
        split at hvmid
        · exact allocateVmid_marks hvmid
        · cases hvmid
          rfl
      have hevicted : (s1.qpd a.process).evicted = (s.qpd a.process).evicted :=
        congrFun (congrArg Marks.evicted hs1) a.process
      split
      · exact Or.inl ((releaseVmid_marks _ _).trans hs1)
      · next s2 q2 hslot =>
        obtain ⟨hs2, hq2⟩ := allocateSlot_marks hslot
        rw [hevicted] at hq2
        split
        · exact Or.inl ((releaseVmid_marks _ _).trans
            ((deallocateSlot_marks d s2 q2).trans (hs2.trans hs1)))
        · next s3 q3 hdoorbell =>
          obtain ⟨hs3, hq3⟩ := allocateDoorbell_marks hdoorbell
          have hmarks := hs3.trans (hs2.trans hs1)
          refine Or.inr ⟨q3, ⟨hq3.process.trans hq2.process, hq3.isEvicted.trans hq2.isEvicted,
            hq3.isActive.trans hq2.isActive⟩, ?_⟩
          have hpending : s3.pending = s.pending := congrArg Marks.pending hmarks
          show { s3.marks with pending := q3 :: s3.pending } = _
          rw [hmarks, hpending]

theorem addQueueToList_marks (s : Dqm) (q : Queue) :
    (addQueueToList s q).marks = { s.marks with queues := q :: s.queues } := by
  unfold addQueueToList
  simp only
  split
  · rw [incrementQueueCount_marks, countQueue_marks]
    rfl
  · rw [countQueue_marks]
    rfl

theorem unlinkQueue_marks (s : Dqm) (i : Nat) (q : Queue) (retval : Option Errno) :
    (unlinkQueue s i q retval).marks = { s.marks with queues := s.queues.eraseIdx i } := by
  unfold unlinkQueue
  simp only
  repeat' split
  all_goals
    simp only [decrementQueueCount_marks, countQueue_marks, deallocateVmid_marks, setReset_marks]
    rfl

theorem destroyQueueNocpsch_marks (d : Device) (s : Dqm) (i : Nat) (retval : Option Errno) :
    ∃ queues, queues ⊆ s.queues ∧
      (destroyQueueNocpsch d s i retval).marks = { s.marks with queues := queues } := by
  have hsame : ∃ queues, queues ⊆ s.queues ∧ s.marks = { s.marks with queues := queues } :=
    ⟨s.queues, Subset.refl _, rfl⟩
  unfold destroyQueueNocpsch
  split
  · exact hsame
  · next q _ =>
    split
    · exact hsame
    · unfold destroyQueueNocpschLocked
      split
      · exact hsame
      · have hfreed : (deallocateDoorbell d { deallocateSlot d s q with
            totalQueueCount := (deallocateSlot d s q).totalQueueCount - 1 } q).marks = s.marks :=
          (deallocateDoorbell_marks d _ q).trans (deallocateSlot_marks d s q)
        simp only
        split
        · rw [hfreed]
          exact hsame
        · rw [unlinkQueue_marks, hfreed]
          refine ⟨_, ?_, rfl⟩
          have hqueues : _ = s.queues := congrArg Marks.queues hfreed
          exact fun x hx => hqueues ▸ eraseIdx_subset hx

end Frame

/-! ## The invariant -/

/-- The queues of an evicted process have the mark and are inactive, no other queue has it, and
a queue that is created with the mark is inactive. -/
structure Marks.Settled (m : Marks) : Prop where
  parked : ∀ q ∈ m.queues, 0 < m.evicted q.process → q.isEvicted = true ∧ q.isActive = false
  unmarked : ∀ q ∈ m.queues, m.evicted q.process = 0 → q.isEvicted = false
  pending : ∀ q ∈ m.pending, q.isEvicted = true → q.isActive = false

/-- The condition of a step: a creation that succeeds has sampled what still holds. -/
def Op.Marks (s : Dqm) : Op → Prop
  | .createEnd i mqd load => ∀ q ∈ s.pending[i]?, mqd = true →
      (q.isActive = true → s.schedRunning = true → load = none) →
      q.isEvicted = decide (0 < (s.qpd q.process).evicted)
  | _ => True

instance Op.Marks.decidable (s : Dqm) : ∀ op : Op, Decidable (op.Marks s)
  | .createEnd i mqd load => inferInstanceAs (Decidable (∀ q ∈ s.pending[i]?, mqd = true →
      (q.isActive = true → s.schedRunning = true → load = none) →
      q.isEvicted = decide (0 < (s.qpd q.process).evicted)))
  | .createBegin _ => isTrue trivial
  | .destroy _ _ => isTrue trivial
  | .terminate _ _ => isTrue trivial
  | .evict _ => isTrue trivial
  | .restore _ _ => isTrue trivial
  | .stop => isTrue trivial
  | .start _ => isTrue trivial

section Steps
variable {d : Device} {s : Dqm}

theorem CreateArgs.queue_inactive (a : CreateArgs) {evicted : Nat}
    (h : (a.queue evicted).isEvicted = true) : (a.queue evicted).isActive = false := by
  simp only [CreateArgs.queue] at h ⊢
  split
  · rfl
  · simp [QueueManager.queueIsActive, h]

section
variable (h : s.marks.Settled)
include h

theorem settled_createQueueBegin (a : CreateArgs) : (createQueueBegin d s a).1.marks.Settled := by
  rcases createQueueBegin_marks d s a with heq | ⟨q, hq, heq⟩
  · rw [heq]
    exact h
  · rw [heq]
    refine ⟨h.parked, h.unmarked, fun x hx hmark => ?_⟩
    rcases mem_cons.mp hx with rfl | hx
    · rw [hq.isActive]
      exact a.queue_inactive (hq.isEvicted ▸ hmark)
    · exact h.pending x hx hmark

theorem Marks.Settled.erase (i : Nat) :
    Marks.Settled { s.marks with pending := s.pending.eraseIdx i } :=
  ⟨h.parked, h.unmarked, fun q hq => h.pending q (eraseIdx_subset hq)⟩

theorem settled_createQueueEnd {i : Nat} {mqd : Bool} {load : Option Errno}
    (hop : (Op.createEnd i mqd load).Marks s) :
    (createQueueEnd d s i mqd load).1.marks.Settled := by
  unfold createQueueEnd
  split
  · exact h
  · next q hq =>
    simp only
    split
    · rw [undoCreate_marks]
      exact h.erase i
    · next hok =>
      have hmqd : mqd = true := by
        cases mqd with
        | false => cases hok
        | true => rfl
      have hload : q.isActive = true → s.schedRunning = true → load = none := by
        intro hactive hrun
        simpa [hmqd, hactive, hrun] using hok
      have hmark := hop q hq hmqd hload
      rw [addQueueToList_marks]
      refine ⟨fun x hx hpos => ?_, fun x hx hzero => ?_, (h.erase i).pending⟩
      · rcases mem_cons.mp hx with rfl | hx
        · have hevicted : x.isEvicted = true := hmark.trans (decide_eq_true hpos)
          exact ⟨hevicted, h.pending x (mem_of_getElem? hq) hevicted⟩
        · exact h.parked x hx hpos
      · rcases mem_cons.mp hx with rfl | hx
        · exact hmark.trans (decide_eq_false (not_lt.mpr (le_of_eq hzero)))
        · exact h.unmarked x hx hzero

theorem settled_destroyQueueNocpsch (i : Nat) (retval : Option Errno) :
    (destroyQueueNocpsch d s i retval).marks.Settled := by
  obtain ⟨queues, hsub, heq⟩ := destroyQueueNocpsch_marks d s i retval
  rw [heq]
  exact ⟨fun q hq => h.parked q (hsub hq), fun q hq => h.unmarked q (hsub hq), h.pending⟩

end

theorem Marks.Settled.change {m m' : Marks} (h : m.Settled) {p : Nat} {f : Queue → Queue}
    (hqueues : m'.queues = m.queues.map fun q => if q.process = p then f q else q)
    (hpending : m'.pending = m.pending) (hother : ∀ x ≠ p, m'.evicted x = m.evicted x)
    (hprocess : ∀ q, (f q).process = q.process)
    (hparked : ∀ q ∈ m.queues, q.process = p → 0 < m'.evicted p →
      (f q).isEvicted = true ∧ (f q).isActive = false)
    (hunmarked : ∀ q ∈ m.queues, q.process = p → m'.evicted p = 0 → (f q).isEvicted = false) :
    m'.Settled := by
  refine ⟨fun x hx hpos => ?_, fun x hx hzero => ?_, hpending ▸ h.pending⟩
  · rw [hqueues] at hx
    obtain ⟨q, hq, rfl⟩ := mem_map.mp hx
    split at hpos
    · next hp =>
      rw [if_pos hp]
      rw [hprocess, hp] at hpos
      exact hparked q hq hp hpos
    · next hp =>
      rw [if_neg hp]
      exact h.parked q hq (hother _ hp ▸ hpos)
  · rw [hqueues] at hx
    obtain ⟨q, hq, rfl⟩ := mem_map.mp hx
    split at hzero
    · next hp =>
      rw [if_pos hp]
      rw [hprocess, hp] at hzero
      exact hunmarked q hq hp hzero
    · next hp =>
      rw [if_neg hp]
      exact h.unmarked q hq (hother _ hp ▸ hzero)

theorem mapQpd_other (s : Dqm) (p : Nat) (f : Qpd → Qpd) :
    ∀ x ≠ p, (s.mapQpd p f).marks.evicted x = s.marks.evicted x := by
  intro x hx
  show (update s.qpd p (f (s.qpd p)) x).evicted = _
  rw [update_of_ne hx]
  rfl

theorem mapQpd_self (s : Dqm) (p : Nat) (f : Qpd → Qpd) :
    (s.mapQpd p f).marks.evicted p = (f (s.qpd p)).evicted := by
  show (update s.qpd p (f (s.qpd p)) p).evicted = _
  rw [update_self]

theorem settled_evictProcessQueuesNocpsch (h : s.marks.Settled) (p : Nat) :
    (evictProcessQueuesNocpsch s p).marks.Settled := by
  have hkeep : s.queues = s.queues.map fun q => if q.process = p then id q else q := by
    simp
  unfold evictProcessQueuesNocpsch
  simp only
  split
  · next hpos =>
    refine h.change hkeep rfl (mapQpd_other s p _) (fun _ => rfl) (fun q hq hp _ => ?_)
      fun q hq hp hzero => ?_
    · exact h.parked q hq (hp ▸ hpos)
    · rw [mapQpd_self] at hzero
      cases hzero
  · generalize hl : filter _ _ = l
    have hmarks := foldl_marks decrementQueueCount_marks l
      (s.mapQpd p fun qpd => { qpd with evicted := qpd.evicted + 1 })
    generalize l.foldl decrementQueueCount _ = s' at hmarks
    have hpending : s'.pending = s.pending := congrArg Marks.pending hmarks
    have hqueues : s'.queues = s.queues := congrArg Marks.queues hmarks
    refine h.change (p := p) (f := fun q => { q with isEvicted := true, isActive := false })
      ?_ ?_ ?_ (fun _ => rfl) (fun _ _ _ _ => ⟨rfl, rfl⟩) fun q hq hp hzero => ?_
    · exact congrArg (List.map _) hqueues
    · exact hpending
    · intro x hx
      exact (congrFun (congrArg Marks.evicted hmarks) x).trans (mapQpd_other s p _ x hx)
    · have hself := (congrFun (congrArg Marks.evicted hmarks) p).trans (mapQpd_self s p _)
      cases hself.symm.trans hzero

theorem Queue.restored_process (q : Queue) : q.restored.process = q.process := by
  unfold Queue.restored
  simp only
  split
  · rfl
  · rfl

theorem Queue.restored_isEvicted (q : Queue) : q.restored.isEvicted = false := by
  unfold Queue.restored
  simp only
  split
  · rfl
  · rfl

theorem settled_restoreProcessQueuesNocpsch (h : s.marks.Settled) (p : Nat) (mm : Bool) :
    (restoreProcessQueuesNocpsch s p mm).marks.Settled := by
  have hkeep : s.queues = s.queues.map fun q => if q.process = p then id q else q := by
    simp
  unfold restoreProcessQueuesNocpsch
  split
  · exact h
  · split
    · next hmore =>
      refine h.change hkeep rfl (mapQpd_other s p _) (fun _ => rfl) (fun q hq hp _ => ?_)
        fun q hq hp hzero => ?_
      · exact h.parked q hq (hp ▸ lt_trans Nat.zero_lt_one hmore)
      · rw [mapQpd_self] at hzero
        exact absurd hmore (not_lt.mpr (Nat.sub_eq_zero_iff_le.mp hzero))
    · split
      · exact h
      · simp only
        generalize filter _ (s.queuesList p) = l
        have hmarks := foldl_marks incrementQueueCount_marks l s
        generalize l.foldl incrementQueueCount s = s' at hmarks
        have hpending : s'.pending = s.pending := congrArg Marks.pending hmarks
        have hqueues : s'.queues = s.queues := congrArg Marks.queues hmarks
        refine h.change (p := p) (f := Queue.restored) ?_ ?_ ?_ Queue.restored_process
          (fun q _ _ hpos => ?_) fun q _ _ _ => q.restored_isEvicted
        · exact congrArg (List.map _) hqueues
        · exact hpending
        · intro x hx
          exact (mapQpd_other _ p _ x hx).trans (congrFun (congrArg Marks.evicted hmarks) x)
        · rw [mapQpd_self] at hpos
          exact absurd hpos (lt_irrefl 0)

end Steps

theorem settled_step {d : Device} (s : Dqm) (op : Op) (h : s.marks.Settled) (hop : op.Marks s) :
    (step d s op).marks.Settled := by
  cases op with
  | createBegin a =>
    simp only [step]
    split
    · exact h
    · exact settled_createQueueBegin h a
  | createEnd i mqd load => exact settled_createQueueEnd h hop
  | destroy i retval => exact settled_destroyQueueNocpsch h i retval
  | terminate p retval =>
    simp only [step, terminateOne]
    split
    · exact h
    · exact settled_destroyQueueNocpsch h _ retval
  | evict p => exact settled_evictProcessQueuesNocpsch h p
  | restore p mm => exact settled_restoreProcessQueuesNocpsch h p mm
  | stop => exact h
  | start ok =>
    simp only [step]
    split
    · exact h
    · exact h

theorem settled_init (d : Device) : d.init.marks.Settled :=
  ⟨fun _ hq => absurd hq not_mem_nil, fun _ hq => absurd hq not_mem_nil,
    fun _ hq => absurd hq not_mem_nil⟩

/-! ## Both schedulers -/

def MarksMatch (evicted : Nat) (queues : List QueueManager.Queue) : Prop :=
  (0 < evicted → ∀ q ∈ queues, q.isEvicted = true ∧ q.isActive = false) ∧
  (evicted = 0 → ∀ q ∈ queues, q.isEvicted = false)
  deriving Decidable

/-- The queues of process `p`. -/
def Dqm.propertiesList (s : Dqm) (p : Nat) : List QueueManager.Queue :=
  (s.queuesList p).map (·.toQueue)

theorem Marks.Settled.marksMatch {s : Dqm} (h : s.marks.Settled) (p : Nat) :
    MarksMatch (s.qpd p).evicted (s.propertiesList p) := by
  have hlisted : ∀ q ∈ s.propertiesList p, ∃ x ∈ s.queues, x.process = p ∧ x.toQueue = q := by
    intro q hq
    obtain ⟨x, hx, rfl⟩ := mem_map.mp hq
    obtain ⟨hmem, hp⟩ := mem_filter.mp hx
    exact ⟨x, hmem, of_decide_eq_true hp, rfl⟩
  refine ⟨fun hpos q hq => ?_, fun hzero q hq => ?_⟩
  · obtain ⟨x, hx, rfl, rfl⟩ := hlisted q hq
    exact h.parked x hx hpos
  · obtain ⟨x, hx, rfl, rfl⟩ := hlisted q hq
    exact h.unmarked x hx hzero

/-- Queues created during an eviction stay evicted, with either scheduler, in every run whose
steps meet their conditions: without the hardware scheduler, no first eviction and no last
restore of a process comes while a creation that succeeds has released the lock; with it, MES
adds every queue that the last restore makes active. -/
theorem evicted_marks (enableMes : Bool) (maxQueues : Fin (512 * 1024 + 1))
    (ops : List QueueManager.Op) (d : Device) (ops' : List Op) :
    (StepsOk QueueManager.step QueueManager.Op.Marks (QueueManager.init enableMes maxQueues) ops →
      ∀ qpd ∈ (run QueueManager.step (QueueManager.init enableMes maxQueues) ops).qpds,
        MarksMatch qpd.evicted qpd.queues) ∧
    (StepsOk (step d) Op.Marks d.init ops' →
      ∀ p, MarksMatch ((run (step d) d.init ops').qpd p).evicted
        ((run (step d) d.init ops').propertiesList p)) := by
  refine ⟨fun hok qpd hqpd => ?_, fun hok p => ?_⟩
  · have hsettled := run_inv_of_stepsOk (P := fun s => ∀ qpd ∈ s.qpds, qpd.Settled)
      QueueManager.step_settled (s := QueueManager.init enableMes maxQueues)
      (fun x hx => absurd hx not_mem_nil) hok qpd hqpd
    exact ⟨hsettled.parked, hsettled.unmarked⟩
  · exact (run_inv_of_stepsOk (P := fun s : Dqm => s.marks.Settled) settled_step (settled_init d)
      hok).marksMatch p

def exMarks : List Op :=
  [.start true, .evict 0, .createBegin exCreate, .createEnd 0 true none]

theorem evicted_marks_exMarks :
    (∀ qpd ∈ (run QueueManager.step (QueueManager.init true 127) QueueManager.exRun).qpds,
      MarksMatch qpd.evicted qpd.queues) ∧
    ((run (step exDevice) exDevice.init exMarks).qpd 0).evicted = 1 ∧
    ((run (step exDevice) exDevice.init exMarks).propertiesList 0).length = 1 ∧
    MarksMatch ((run (step exDevice) exDevice.init exMarks).qpd 0).evicted
      ((run (step exDevice) exDevice.init exMarks).propertiesList 0) :=
  ⟨(evicted_marks true 127 QueueManager.exRun exDevice exMarks).1 (by decide), by decide,
    by decide, (evicted_marks true 127 QueueManager.exRun exDevice exMarks).2 (by decide) 0⟩

def exOvertaken : List Op :=
  [.start true, .createBegin exCreate, .evict 0, .createEnd 0 true none]

/-- The queue is active, without the mark, on the list of an evicted process. With MES, so is
one that a failed restore leaves. -/
theorem evicted_marks_broken :
    ¬ MarksMatch ((run (step exDevice) exDevice.init exOvertaken).qpd 0).evicted
      ((run (step exDevice) exDevice.init exOvertaken).propertiesList 0) ∧
    ¬ ∀ qpd ∈ (run QueueManager.step (QueueManager.init true 127)
        (QueueManager.exRetry.take 6)).qpds, MarksMatch qpd.evicted qpd.queues :=
  ⟨by decide, by decide⟩

end Amdkfd.NoHws

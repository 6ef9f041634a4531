import Amdkfd.NoHws.Resources

/-!
# The end of a process without the hardware scheduler

`process_termination_nocpsch` takes the first queue of the process for as long as there is one, and
leaves it to `destroy_queue_nocpsch_locked` to take it off the list. Here the loop is followed
iteration by iteration, with what it gives back.
-/

namespace Amdkfd.NoHws

open Lib List

/-! ## The loop -/

/-- `destroy_queue_nocpsch_locked` knows the type of the queue. -/
def knownType (q : Queue) : Bool :=
  q.type = .compute || isSdma q.type

/-- The loop of `process_termination_nocpsch`: the manager, the queues whose slot and doorbell were
given back, those whose MQD was freed, and `retval`. -/
structure Termination where
  dqm : Dqm
  released : List Queue
  freed : List Queue
  retval : Option Errno

def terminationStep (d : Device) (p : Nat) (ret : Option Errno) (t : Termination) : Termination :=
  match t.dqm.queues.findIdx? (·.process = p) with
  | none => t
  | some i =>
    match t.dqm.queues[i]? with
    | none => t
    | some q =>
      let r := destroyQueueNocpschLocked d t.dqm i q ret
      { dqm := r.1
        released := if knownType q then t.released ++ [q] else t.released
        freed := t.freed ++ [q]
        retval := r.2.or t.retval }

/-- The first `n` iterations; those behind the end of the list do nothing. -/
def terminationLoop (d : Device) (p : Nat) (ret : Nat → Option Errno) (t : Termination) :
    Nat → Termination
  | 0 => t
  | n + 1 => terminationStep d p (ret n) (terminationLoop d p ret t n)

/-- The HQD slot or the SDMA queue of `q` is free. -/
structure SlotIn (d : Device) (f : Free) (q : Queue) : Prop where
  hqd : q.type = .compute → q.queue ∈ f.hqds q.pipe
  sdma : q.type = .sdma → q.sdmaId < d.numSdmaQueues → q.sdmaId ∈ f.sdma
  xgmi : q.type = .sdmaXgmi → q.sdmaId < d.numXgmiSdmaQueues → q.sdmaId ∈ f.xgmi

structure FreeIn (d : Device) (f : Free) (q : Queue) : Prop where
  slot : SlotIn d f q
  doorbell : d.soc15 = true → isSdma q.type = false → q.doorbellId ∉ f.doorbells q.process

/-- The loop ends with the list of the process empty and the slots and doorbells of its queues free.
It has given back those of each queue once, and freed its MQD once. -/
def Terminated (d : Device) (s : Dqm) (p : Nat) (ret : Nat → Option Errno) : Prop :=
  ∃ n, ((terminationLoop d p ret ⟨s, [], [], none⟩ n).dqm.queuesList p = []) ∧
    (∀ q ∈ s.queuesList p, FreeIn d (terminationLoop d p ret ⟨s, [], [], none⟩ n).dqm.free q) ∧
    (terminationLoop d p ret ⟨s, [], [], none⟩ n).released = s.queuesList p ∧
    (terminationLoop d p ret ⟨s, [], [], none⟩ n).freed = s.queuesList p

/-! ## One iteration -/

theorem filter_eq_cons_eraseIdx {α : Type} {f : α → Bool} {l : List α} {i : Nat}
    (h : l.findIdx? f = some i) :
    ∃ x, l[i]? = some x ∧ l.filter f = x :: (l.eraseIdx i).filter f := by
  induction l generalizing i with
  | nil => cases h
  | cons a l ih =>
    rw [findIdx?_cons] at h
    cases ha : f a with
    | true =>
      rw [ha, if_pos rfl] at h
      cases h
      exact ⟨a, rfl, filter_cons_of_pos ha⟩
    | false =>
      rw [ha, if_neg Bool.false_ne_true, Option.map_eq_some_iff] at h
      obtain ⟨j, hj, rfl⟩ := h
      obtain ⟨x, hx, heq⟩ := ih hj
      refine ⟨x, hx, ?_⟩
      rw [eraseIdx_cons_succ, filter_cons_of_neg (by simp [ha]),
        filter_cons_of_neg (by simp [ha])]
      exact heq

variable {s : Dqm} {p : Nat} {t : Termination}

theorem findIdx?_eq_none_of_queuesList (h : s.queuesList p = []) :
    s.queues.findIdx? (·.process = p) = none := by
  rw [findIdx?_eq_none_iff]
  intro q hq
  simpa using filter_eq_nil_iff.mp h q hq

theorem unlinkQueue_schedRunning (s : Dqm) (i : Nat) (q : Queue) (ret : Option Errno) :
    (unlinkQueue s i q ret).schedRunning = s.schedRunning := by
  unfold unlinkQueue
  dsimp only
  split <;> split <;> split <;> rfl

theorem knownType_eq_false {q : Queue} :
    knownType q = false ↔ q.type ≠ .compute ∧ isSdma q.type = false := by
  simp [knownType]

theorem destroyQueueNocpschLocked_queues (d : Device) (s : Dqm) (i : Nat) (q : Queue)
    (ret : Option Errno) :
    (destroyQueueNocpschLocked d s i q ret).1.schedRunning = s.schedRunning ∧
      (destroyQueueNocpschLocked d s i q ret).1.queues =
        if knownType q = true ∧ s.schedRunning = true then s.queues.eraseIdx i else s.queues := by
  have hs := deallocateSlot_frame d s q
  have hd := deallocateDoorbell_frame d { deallocateSlot d s q with
    totalQueueCount := (deallocateSlot d s q).totalQueueCount - 1 } q
  have hqueues := hd.2.1.trans hs.2.2.1
  have hrunning := hd.2.2.2.trans hs.2.2.2.2
  unfold destroyQueueNocpschLocked
  split
  · next htype =>
    rw [← knownType_eq_false] at htype
    exact ⟨rfl, by rw [htype, if_neg (fun h => Bool.false_ne_true h.1)]⟩
  next htype =>
  rw [← knownType_eq_false, Bool.not_eq_false] at htype
  dsimp only
  split
  · next hstop =>
    refine ⟨hrunning, ?_⟩
    rw [if_neg fun h => Bool.false_ne_true ((hstop.symm.trans hrunning).trans h.2)]
    exact hqueues
  · next hrun =>
    rw [hrunning, Bool.not_eq_false] at hrun
    rw [unlinkQueue_schedRunning, (unlinkQueue_lists _ i q ret).1, if_pos ⟨htype, hrun⟩, hqueues]
    exact ⟨hrunning, rfl⟩

theorem destroyQueueNocpschLocked_pending (d : Device) (s : Dqm) (i : Nat) (q : Queue)
    (ret : Option Errno) : (destroyQueueNocpschLocked d s i q ret).1.pending = s.pending := by
  have hs := deallocateSlot_frame d s q
  have hd := deallocateDoorbell_frame d { deallocateSlot d s q with
    totalQueueCount := (deallocateSlot d s q).totalQueueCount - 1 } q
  have hpending := hd.2.2.1.trans hs.2.2.2.1
  unfold destroyQueueNocpschLocked
  split
  · rfl
  · dsimp only
    split
    · exact hpending
    · rw [(unlinkQueue_lists _ i q ret).2]
      exact hpending

section

variable {d : Device} {f : Free} {q x : Queue}

theorem giveSlot_slotIn (d : Device) (f : Free) (q : Queue) : SlotIn d (f.giveSlot d q) q where
  hqd ht := by simp [Free.giveSlot, ht]
  sdma ht hlt := by simp [Free.giveSlot, ht, hlt.not_ge]
  xgmi ht hlt := by simp [Free.giveSlot, ht, hlt.not_ge]

theorem SlotIn.giveSlot (h : SlotIn d f x) (q : Queue) : SlotIn d (f.giveSlot d q) x := by
  unfold Free.giveSlot
  split
  · refine ⟨fun ht => ?_, h.sdma, h.xgmi⟩
    simp only [Function.update_apply]
    split
    · next heq => exact Finset.mem_insert_of_mem (heq ▸ h.hqd ht)
    · exact h.hqd ht
  · split
    · exact h
    · exact ⟨h.hqd, fun ht hlt => Finset.mem_insert_of_mem (h.sdma ht hlt), h.xgmi⟩
  · split
    · exact h
    · exact ⟨h.hqd, h.sdma, fun ht hlt => Finset.mem_insert_of_mem (h.xgmi ht hlt)⟩
  · exact h

theorem deallocateDoorbell_freeIn (hslot : SlotIn d s.free x) (h : x = q ∨ FreeIn d s.free x) :
    FreeIn d (deallocateDoorbell d s q).free x := by
  unfold deallocateDoorbell
  split
  · next hskip =>
    refine ⟨hslot, fun hsoc hsdma => ?_⟩
    rcases h with rfl | h
    · simp [hsoc, hsdma] at hskip
    · exact h.doorbell hsoc hsdma
  · refine ⟨⟨hslot.hqd, hslot.sdma, hslot.xgmi⟩, fun hsoc hsdma => ?_⟩
    by_cases hp : x.process = q.process
    · simp only [Dqm.free, Dqm.mapQpd, hp, Function.update_self, Finset.mem_sdiff,
        Finset.mem_singleton]
      rintro ⟨hmem, hne⟩
      rcases h with rfl | h
      · exact hne rfl
      · exact h.doorbell hsoc hsdma (hp ▸ hmem)
    · simp only [Dqm.free, Dqm.mapQpd, Function.update_of_ne hp]
      exact (h.resolve_left fun heq => hp (heq ▸ rfl)).doorbell hsoc hsdma

theorem FreeIn.unlinkQueue (h : FreeIn d s.free x) (i : Nat) (q : Queue) (ret : Option Errno) :
    FreeIn d (unlinkQueue s i q ret).free x := by
  rw [unlinkQueue_free, releaseVmid]
  split
  · rw [deallocateVmid_free]
    exact ⟨⟨h.slot.hqd, h.slot.sdma, h.slot.xgmi⟩, h.doorbell⟩
  · exact h

/-- The resources of the queue are free, and those that are free stay free. -/
theorem destroyQueueNocpschLocked_freeIn (i : Nat) (ret : Option Errno)
    (h : x = q ∧ knownType q = true ∨ FreeIn d s.free x) :
    FreeIn d (destroyQueueNocpschLocked d s i q ret).1.free x := by
  unfold destroyQueueNocpschLocked
  split
  · next htype =>
    rw [← knownType_eq_false] at htype
    refine h.resolve_left fun hq => ?_
    rw [hq.2] at htype
    cases htype
  have hslot : SlotIn d (deallocateSlot d s q).free x := by
    rw [deallocateSlot_free]
    rcases h with ⟨rfl, -⟩ | h
    · exact giveSlot_slotIn d s.free x
    · exact h.slot.giveSlot q
  have hkeep : (deallocateSlot d s q).free.doorbells = s.free.doorbells := by
    simp only [Dqm.free, (deallocateSlot_frame d s q).1]
  have hfree : FreeIn d (deallocateDoorbell d { deallocateSlot d s q with
      totalQueueCount := (deallocateSlot d s q).totalQueueCount - 1 } q).free x := by
    refine deallocateDoorbell_freeIn hslot (h.imp And.left fun h => ⟨hslot, ?_⟩)
    intro hsoc hsdma
    have hmem := h.doorbell hsoc hsdma
    rw [← hkeep] at hmem
    exact hmem
  dsimp only
  split
  · exact hfree
  · exact hfree.unlinkQueue i q ret

end

theorem terminationStep_cons (d : Device) (ret : Option Errno) {q : Queue} {qs : List Queue}
    (h : t.dqm.queuesList p = q :: qs) :
    (terminationStep d p ret t).dqm.schedRunning = t.dqm.schedRunning ∧
      (terminationStep d p ret t).dqm.queuesList p =
        (if knownType q = true ∧ t.dqm.schedRunning = true then qs else q :: qs) ∧
      (terminationStep d p ret t).released =
        (if knownType q then t.released ++ [q] else t.released) ∧
      (terminationStep d p ret t).freed = t.freed ++ [q] ∧
      ∀ x, x = q ∧ knownType q = true ∨ FreeIn d t.dqm.free x →
        FreeIn d (terminationStep d p ret t).dqm.free x := by
  unfold terminationStep
  cases hi : t.dqm.queues.findIdx? (·.process = p) with
  | none =>
    have hnone : t.dqm.queuesList p = [] := by
      rw [Dqm.queuesList, filter_eq_nil_iff]
      intro x hx
      simpa using findIdx?_eq_none_iff.mp hi x hx
    rw [hnone] at h
    cases h
  | some i =>
    obtain ⟨x, hx, hfilter⟩ := filter_eq_cons_eraseIdx hi
    have heq : q :: qs = x :: (t.dqm.queues.eraseIdx i).filter (·.process = p) :=
      h.symm.trans hfilter
    obtain ⟨rfl, rfl⟩ := cons.inj heq
    obtain ⟨hrunning, hqueues⟩ := destroyQueueNocpschLocked_queues d t.dqm i q ret
    simp only [hx, true_and]
    refine ⟨hrunning, ?_, fun x => destroyQueueNocpschLocked_freeIn i ret⟩
    rw [Dqm.queuesList, hqueues]
    split
    · rfl
    · exact h

theorem terminationStep_nil (d : Device) (ret : Option Errno) (h : t.dqm.queuesList p = []) :
    terminationStep d p ret t = t := by
  unfold terminationStep
  rw [findIdx?_eq_none_of_queuesList h]

/-! ## The whole loop -/

theorem terminationLoop_progress (d : Device) (ret : Nat → Option Errno)
    (hrun : s.schedRunning = true) (hknown : ∀ q ∈ s.queuesList p, knownType q = true) (n : Nat) :
    let t := terminationLoop d p ret ⟨s, [], [], none⟩ n
    t.dqm.schedRunning = true ∧ t.dqm.queuesList p = (s.queuesList p).drop n ∧
      t.released = (s.queuesList p).take n ∧ t.freed = (s.queuesList p).take n ∧
      ∀ q ∈ (s.queuesList p).take n, FreeIn d t.dqm.free q := by
  induction n with
  | zero => exact ⟨hrun, rfl, by simp [terminationLoop], by simp [terminationLoop], by simp⟩
  | succ n ih =>
    obtain ⟨hrunning, hlist, hreleased, hfreed, hfree⟩ := ih
    simp only [terminationLoop]
    cases hdrop : (s.queuesList p).drop n with
    | nil =>
      have hlen : (s.queuesList p).length ≤ n := drop_eq_nil_iff.mp hdrop
      rw [terminationStep_nil d _ (hlist.trans hdrop), drop_eq_nil_of_le (by omega),
        take_of_length_le (by omega)]
      rw [take_of_length_le hlen] at hreleased hfreed hfree
      exact ⟨hrunning, hlist.trans hdrop, hreleased, hfreed, hfree⟩
    | cons q qs =>
      have hstep := terminationStep_cons d (ret n) (hlist.trans hdrop)
      have hq : (s.queuesList p)[n]? = some q := by
        rw [← head?_drop, hdrop]
        rfl
      have htail : (s.queuesList p).drop (n + 1) = qs := by
        rw [← tail_drop, hdrop]
        rfl
      have hk : knownType q = true := hknown q (mem_of_getElem? hq)
      obtain ⟨hrunning', hlist', hreleased', hfreed', hfree'⟩ := hstep
      rw [if_pos ⟨hk, hrunning⟩] at hlist'
      rw [if_pos hk, hreleased] at hreleased'
      rw [hfreed] at hfreed'
      rw [htail, take_add_one, hq]
      refine ⟨hrunning'.trans hrunning, hlist', hreleased', hfreed', fun x hx => hfree' x ?_⟩
      rcases mem_append.mp hx with hx | hx
      · exact .inr (hfree x hx)
      · exact .inl ⟨mem_singleton.mp hx, hk⟩

/-- A loop that cannot end: the scheduler is stopped, or a queue has a type that is not known. -/
def Stuck (s : Dqm) (p : Nat) : Prop :=
  (s.schedRunning = false ∧ s.queuesList p ≠ []) ∨ ∃ q ∈ s.queuesList p, knownType q = false

theorem terminationStep_stuck (d : Device) (ret : Option Errno) (h : Stuck t.dqm p) :
    Stuck (terminationStep d p ret t).dqm p := by
  cases hlist : t.dqm.queuesList p with
  | nil => rwa [terminationStep_nil d ret hlist]
  | cons q qs =>
    obtain ⟨hrunning, hlist', -⟩ := terminationStep_cons d ret hlist
    rcases h with ⟨hstop, -⟩ | ⟨x, hx, hunknown⟩
    · refine .inl ⟨hrunning.trans hstop, ?_⟩
      rw [hlist', if_neg fun hc => Bool.false_ne_true (hstop.symm.trans hc.2)]
      exact cons_ne_nil q qs
    · refine .inr ⟨x, ?_, hunknown⟩
      rw [hlist] at hx
      rw [hlist']
      split
      · next hc =>
        refine (mem_cons.mp hx).resolve_left fun heq => ?_
        rw [heq, hc.1] at hunknown
        cases hunknown
      · exact hx

theorem terminationLoop_stuck (d : Device) (ret : Nat → Option Errno) (h : Stuck s p) (n : Nat) :
    Stuck (terminationLoop d p ret ⟨s, [], [], none⟩ n).dqm p := by
  induction n with
  | zero => exact h
  | succ n ih => exact terminationStep_stuck d (ret n) ih

theorem Stuck.ne_nil (h : Stuck s p) : s.queuesList p ≠ [] := by
  rcases h with ⟨-, hne⟩ | ⟨q, hq, -⟩
  · exact hne
  · exact ne_nil_of_mem hq

/-- The loop ends, and gives everything back once, exactly when the process has no queue, or the
scheduler runs and every queue has a type that `destroy_queue_nocpsch_locked` knows. -/
theorem terminated_iff (d : Device) (s : Dqm) (p : Nat) (ret : Nat → Option Errno) :
    Terminated d s p ret ↔ s.queuesList p = [] ∨
      (s.schedRunning = true ∧ ∀ q ∈ s.queuesList p, knownType q = true) := by
  constructor
  · rintro ⟨n, hnil, -⟩
    by_contra hc
    obtain ⟨hne, hc⟩ := not_or.mp hc
    refine (terminationLoop_stuck d ret (p := p) (s := s) ?_ n).ne_nil hnil
    by_cases hrun : s.schedRunning = true
    · have hall := not_and.mp hc hrun
      push Not at hall
      obtain ⟨q, hq, hk⟩ := hall
      exact .inr ⟨q, hq, by simpa using hk⟩
    · exact .inl ⟨by simpa using hrun, hne⟩
  · rintro (hnil | ⟨hrun, hknown⟩)
    · refine ⟨0, hnil, fun q hq => ?_, hnil.symm, hnil.symm⟩
      rw [hnil] at hq
      cases hq
    · obtain ⟨-, hlist, hreleased, hfreed, hfree⟩ :=
        terminationLoop_progress d ret hrun hknown (s.queuesList p).length
      refine ⟨(s.queuesList p).length, ?_, ?_, ?_, ?_⟩
      · rw [hlist, drop_length]
      · rwa [take_length] at hfree
      · rw [hreleased, take_length]
      · rw [hfreed, take_length]

theorem terminationStep_inv {d : Device} (ret : Option Errno) (h : Inv d t.dqm)
    (hbusy : t.dqm.busy p = false) (hrun : t.dqm.schedRunning = true) :
    Inv d (terminationStep d p ret t).dqm ∧ (terminationStep d p ret t).dqm.busy p = false := by
  unfold terminationStep
  split
  · exact ⟨h, hbusy⟩
  · next i hi =>
    obtain ⟨q, hq, -⟩ := filter_eq_cons_eraseIdx hi
    have hp : q.process = p := by
      obtain ⟨hlt, hf, -⟩ := findIdx?_eq_some_iff_getElem.mp hi
      rw [getElem?_eq_getElem hlt] at hq
      obtain rfl := Option.some.inj hq
      simpa using hf
    simp only [hq]
    refine ⟨inv_destroyQueueNocpschLocked h hq (hp ▸ hbusy) hrun ret, ?_⟩
    rw [Dqm.busy, destroyQueueNocpschLocked_pending]
    exact hbusy

/-- However far the loop has come, what the queues of all processes do not own is free. -/
theorem terminated_inv {d : Device} {ret : Nat → Option Errno} (h : Inv d s)
    (hbusy : s.busy p = false) (hrun : s.schedRunning = true)
    (hknown : ∀ q ∈ s.queuesList p, knownType q = true) (n : Nat) :
    Inv d (terminationLoop d p ret ⟨s, [], [], none⟩ n).dqm := by
  suffices hboth : Inv d (terminationLoop d p ret ⟨s, [], [], none⟩ n).dqm ∧
      (terminationLoop d p ret ⟨s, [], [], none⟩ n).dqm.busy p = false from hboth.1
  induction n with
  | zero => exact ⟨h, hbusy⟩
  | succ n ih =>
    exact terminationStep_inv (ret n) ih.1 ih.2
      (terminationLoop_progress d ret hrun hknown n).1

theorem terminated_inv_exStarted :
    let s := run (step exDevice) exDevice.init
      [.start true, .createBegin exCreate, .createEnd 0 true none]
    Inv exDevice (terminationLoop exDevice 0 (fun _ => none) ⟨s, [], [], none⟩ 1).dqm := by
  intro s
  have h : Inv exDevice s := run_inv_of_stepsOk inv_step (inv_init exDevice)
    ⟨trivial, ⟨.of_not_restore rfl, fun _ hq => nomatch hq⟩, trivial, trivial⟩
  exact terminated_inv h (by decide) (by decide) (by decide) 1

def exStopped : Dqm :=
  run (step exDevice) exDevice.init
    [.start true, .createBegin exCreate, .createEnd 0 true none, .stop]

/-- The loop does not end: the queue stays first on the list, and its slot is given back and its
MQD freed again and again. -/
theorem terminated_broken : ¬ Terminated exDevice exStopped 0 fun _ => none := by
  rintro ⟨n, hnil, -⟩
  exact (terminationLoop_stuck exDevice _ (.inl (by decide)) n).ne_nil hnil

end Amdkfd.NoHws

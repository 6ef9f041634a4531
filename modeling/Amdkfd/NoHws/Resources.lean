import Amdkfd.NoHws.Model
import Amdkfd.Lib.Ownership

/-!
# Ownership of hardware resources

What the live queues own: HQD slots, SDMA queues, doorbells and VMIDs. The live queues
are those on the lists of their processes, and those whose creation is under way.
-/

namespace Amdkfd.NoHws

open Lib Function List

/-! ## What is owned -/

def Dqm.live (s : Dqm) : List Queue :=
  s.pending ++ s.queues

def Dqm.Active (s : Dqm) (p : Nat) : Prop :=
  ∃ q ∈ s.live, q.process = p

def hqdOf (q : Queue) : Option (Nat × Nat) :=
  if q.type = .compute then some (q.pipe, q.queue) else none

def sdmaOf (type : QueueManager.QueueType) (q : Queue) : Option Nat :=
  if q.type = type then some q.sdmaId else none

theorem sdmaOf_eq {type : QueueManager.QueueType} {q : Queue} (h : q.type = type) :
    sdmaOf type q = some q.sdmaId :=
  if_pos h

def cpDoorbellOf (d : Device) (q : Queue) : Option (Nat × Nat) :=
  if d.soc15 ∧ isSdma q.type = false then some (q.process, q.doorbellId) else none

def Device.allHqds (d : Device) : Set (Nat × Nat) :=
  {x | x.2 ∈ d.pipeQueues x.1}

def Device.allSdma (d : Device) : Set Nat :=
  {i | i ∈ Finset.range d.numSdmaQueues \ d.reservedSdma}

def Device.allXgmi (d : Device) : Set Nat :=
  {i | i ∈ Finset.range d.numXgmiSdmaQueues}

def Device.allDoorbells (d : Device) : Set (Nat × Nat) :=
  {x | d.soc15 ∧ x.2 < maxQueuesPerProcess ∧ x.2 ∉ d.reservedDoorbells}

/-- The free sets of the manager and of the processes. -/
structure Free where
  hqds : Nat → Bitmap
  sdma : Bitmap
  xgmi : Bitmap
  doorbells : Nat → Bitmap
  vmidPasid : Nat → Nat
  vmids : Nat → Nat

def Dqm.free (s : Dqm) : Free :=
  { hqds := s.allocatedQueues
    sdma := s.sdmaBitmap
    xgmi := s.xgmiSdmaBitmap
    doorbells := fun p => (s.qpd p).doorbellBitmap
    vmidPasid := s.vmidPasid
    vmids := fun p => (s.qpd p).vmid }

def EngineOk (d : Device) (q : Queue) : Prop :=
  (q.type = .sdma →
    q.sdmaEngineId = q.sdmaId % d.sdmaEngines ∧ q.sdmaQueueId = q.sdmaId / d.sdmaEngines) ∧
  (q.type = .sdmaXgmi →
    q.sdmaEngineId = d.sdmaEngines + q.sdmaId % d.xgmiEngines ∧
      q.sdmaQueueId = q.sdmaId / d.xgmiEngines)

/-- A doorbell that is not taken from the bitmap is the one that the queue must have. -/
def DoorbellOk (d : Device) (q : Queue) : Prop :=
  (d.soc15 = false → q.doorbellId = q.queueId) ∧
  (d.soc15 = true → isSdma q.type = true →
    q.doorbellId = d.sdmaDoorbell q.sdmaEngineId q.sdmaQueueId)

structure Slots (d : Device) (f : Free) (l : List Queue) : Prop where
  hqd : Exclusive d.allHqds {x | x.2 ∈ f.hqds x.1} hqdOf l
  sdma : Exclusive d.allSdma {i | i ∈ f.sdma} (sdmaOf .sdma) l
  xgmi : Exclusive d.allXgmi {i | i ∈ f.xgmi} (sdmaOf .sdmaXgmi) l
  engines : ∀ q ∈ l, EngineOk d q

def Free.freeDoorbells (d : Device) (f : Free) : Set (Nat × Nat) :=
  {x | d.soc15 ∧ x.2 < maxQueuesPerProcess ∧ x.2 ∉ f.doorbells x.1}

structure Doorbells (d : Device) (f : Free) (l : List Queue) : Prop where
  cp : Exclusive d.allDoorbells (f.freeDoorbells d) (cpDoorbellOf d) l
  fixed : ∀ q ∈ l, DoorbellOk d q

/-- The processes own their VMIDs. -/
structure Vmids (d : Device) (f : Free) (active : Nat → Prop) : Prop where
  owns : ∀ p, active p → d.firstVmid ≤ f.vmids p ∧ f.vmids p ≤ d.lastVmid ∧
    f.vmidPasid (f.vmids p) = d.pasid p
  distinct : ∀ p p', active p → active p' → f.vmids p = f.vmids p' → p = p'
  used : ∀ v, d.firstVmid ≤ v → v ≤ d.lastVmid → f.vmidPasid v ≠ 0 → ∃ p, active p ∧ f.vmids p = v
  idle : ∀ p, ¬ active p → f.vmids p = 0

/-- The invariant of the manager. -/
structure Inv (d : Device) (s : Dqm) : Prop where
  slots : Slots d s.free s.live
  doorbells : Doorbells d s.free s.live
  ids : (s.live.map fun q => (q.process, q.queueId)).Nodup
  vmids : Vmids d s.free s.Active
  one : (s.pending.map (·.process)).Nodup

/-! ## HQD slots and SDMA queues -/

variable {d : Device}

theorem findPipe_ne {allocated : Nat → Bitmap} {pipe left found : Nat}
    (h : findPipe d allocated pipe left = some found) : allocated found ≠ ∅ := by
  induction left generalizing pipe with
  | zero => cases h
  | succ left ih =>
    unfold findPipe at h
    split at h
    · next hpipe =>
      cases h
      exact hpipe.2
    · exact ih h

theorem allocateHqd_ok {s s' : Dqm} {q q' : Queue} {l : List Queue} (h : Slots d s.free l)
    (hok : allocateHqd d s q = .ok (s', q')) :
    ∃ pipe bit, bit ∈ s.allocatedQueues pipe ∧
      s' = { s with
        allocatedQueues :=
          update s.allocatedQueues pipe (s.allocatedQueues pipe \ {bit})
        nextPipe := (pipe + 1) % d.pipes } ∧
      q' = { q with pipe := pipe, queue := bit } := by
  unfold allocateHqd at hok
  split at hok
  · cases hok
  next pipe hfind =>
  cases hok
  refine ⟨pipe, _, ?_, rfl, rfl⟩
  obtain ⟨i, hi⟩ := Finset.nonempty_iff_ne_empty.mpr (findPipe_ne hfind)
  have hall : (pipe, i) ∈ d.allHqds := h.hqd.free_subset hi
  have hlt : i < d.queuesPerPipe := by
    simp only [Device.allHqds, Device.pipeQueues, Set.mem_ofPred_eq] at hall
    split at hall
    · exact Finset.mem_range.mp (Finset.mem_filter.mp hall).1
    · simp at hall
  exact (findFirstBit_mem hi (hlt.trans_le d.queuesPerPipe_le)).1

theorem takeSdma_ok {map map' : Bitmap} {size id : Nat} {restoreId : Option Nat} {stray : Bool}
    (hmap : ∀ i ∈ map, i < size) (hrange : ∀ id, restoreId = some id → id < maxSdmaQueues)
    (hok : takeSdma map size restoreId stray = .ok (map', id)) :
    id ∈ map ∧ map' = map \ {id} := by
  unfold takeSdma at hok
  split at hok
  · cases hok
  next hne =>
  cases restoreId with
  | none =>
    cases hok
    obtain ⟨i, hi⟩ := Finset.nonempty_iff_ne_empty.mpr hne
    exact ⟨(findFirstBit_mem hi (hmap i hi)).1, rfl⟩
  | some rid =>
    simp only [hrange rid rfl, if_true, decide_eq_true_eq] at hok
    split at hok
    · next hin =>
      cases hok
      exact ⟨hin, rfl⟩
    · cases hok

theorem exists_of_map_ok {ε α β : Type} {x : Except ε α} {f : α → β} {b : β}
    (h : x.map f = .ok b) : ∃ a, x = .ok a ∧ f a = b := by
  cases x with
  | error e => cases h
  | ok a =>
    cases h
    exact ⟨a, rfl, rfl⟩

section
variable {d : Device} {s s' : Dqm} {q q' : Queue} {l : List Queue} {a : CreateArgs}

/-- The ids to restore that the call looks at are within their bitmaps. -/
def CreateArgs.InRange (d : Device) (a : CreateArgs) : Prop :=
  (isSdma a.props.type = true → ∀ id, a.restore.map (·.1) = some id → id < maxSdmaQueues) ∧
    (d.soc15 = true → isSdma a.props.type = false →
      ∀ id, a.restore.map (·.2) = some id → id < maxQueuesPerProcess)

variable {hqds : Nat → Bitmap} {map : Bitmap} {id : Nat}

theorem hqds_take {pipe bit : Nat} :
    {x : Nat × Nat | x.2 ∈ update hqds pipe (hqds pipe \ {bit}) x.1} =
      {x | x.2 ∈ hqds x.1} \ {(pipe, bit)} := by
  ext ⟨p, b⟩
  by_cases hp : p = pipe
  · subst hp
    simp
  · simp [hp]

theorem hqds_give {pipe bit : Nat} :
    {x : Nat × Nat | x.2 ∈ update hqds pipe (insert bit (hqds pipe)) x.1} =
      insert (pipe, bit) {x | x.2 ∈ hqds x.1} := by
  ext ⟨p, b⟩
  by_cases hp : p = pipe
  · subst hp
    simp
  · simp [hp]

theorem bitmap_take : {i | i ∈ map \ {id}} = {i | i ∈ map} \ {id} := by
  ext i
  simp

theorem bitmap_give : {i | i ∈ insert id map} = insert id {i | i ∈ map} := by
  ext i
  simp

theorem deallocateSlot_slots (h : Slots d s.free (q :: l)) :
    Slots d (deallocateSlot d s q).free l := by
  have hengines : ∀ x ∈ l, EngineOk d x := fun x hx => h.engines x (mem_cons_of_mem _ hx)
  unfold deallocateSlot
  cases htype : q.type with
  | compute =>
    simp only [if_true]
    refine ⟨?_, ?_, ?_, hengines⟩
    · simp only [deallocateHqd, Dqm.free, hqds_give]
      exact h.hqd.give (by simp [hqdOf, htype])
    · exact (Exclusive.skip (by simp [sdmaOf, htype])).mp h.sdma
    · exact (Exclusive.skip (by simp [sdmaOf, htype])).mp h.xgmi
  | sdma =>
    have hid : q.sdmaId ∈ d.allSdma :=
      (h.sdma.not_free mem_cons_self (by simp [sdmaOf, htype])).1
    have hlt : ¬ d.numSdmaQueues ≤ q.sdmaId :=
      not_le.mpr (Finset.mem_range.mp (Finset.mem_sdiff.mp hid).1)
    simp only [reduceCtorEq, if_false, isSdma, decide_true, Bool.true_or, if_true,
      deallocateSdmaQueue, htype, hlt]
    refine ⟨?_, ?_, ?_, hengines⟩
    · exact (Exclusive.skip (by simp [hqdOf, htype])).mp h.hqd
    · simp only [Dqm.free, bitmap_give]
      exact h.sdma.give (by simp [sdmaOf, htype])
    · exact (Exclusive.skip (by simp [sdmaOf, htype])).mp h.xgmi
  | sdmaXgmi =>
    have hid : q.sdmaId ∈ d.allXgmi :=
      (h.xgmi.not_free mem_cons_self (by simp [sdmaOf, htype])).1
    have hlt : ¬ d.numXgmiSdmaQueues ≤ q.sdmaId := not_le.mpr (Finset.mem_range.mp hid)
    simp only [reduceCtorEq, if_false, isSdma, decide_true, Bool.or_true, if_true,
      deallocateSdmaQueue, htype, hlt]
    refine ⟨?_, ?_, ?_, hengines⟩
    · exact (Exclusive.skip (by simp [hqdOf, htype])).mp h.hqd
    · exact (Exclusive.skip (by simp [sdmaOf, htype])).mp h.sdma
    · simp only [Dqm.free, bitmap_give]
      exact h.xgmi.give (by simp [sdmaOf, htype])
  | hiq =>
    simp only [reduceCtorEq, if_false, isSdma, decide_false, Bool.or_false, Bool.false_eq_true]
    refine ⟨?_, ?_, ?_, hengines⟩
    · exact (Exclusive.skip (by simp [hqdOf, htype])).mp h.hqd
    · exact (Exclusive.skip (by simp [sdmaOf, htype])).mp h.sdma
    · exact (Exclusive.skip (by simp [sdmaOf, htype])).mp h.xgmi
  | diq =>
    simp only [reduceCtorEq, if_false, isSdma, decide_false, Bool.or_false, Bool.false_eq_true]
    refine ⟨?_, ?_, ?_, hengines⟩
    · exact (Exclusive.skip (by simp [hqdOf, htype])).mp h.hqd
    · exact (Exclusive.skip (by simp [sdmaOf, htype])).mp h.sdma
    · exact (Exclusive.skip (by simp [sdmaOf, htype])).mp h.xgmi

def SameButSlots (s s' : Dqm) : Prop :=
  s'.qpd = s.qpd ∧ s'.vmidPasid = s.vmidPasid ∧ s'.queues = s.queues ∧ s'.pending = s.pending ∧
    s'.schedRunning = s.schedRunning

theorem deallocateSlot_frame (d : Device) (s : Dqm) (q : Queue) :
    SameButSlots s (deallocateSlot d s q) := by
  unfold deallocateSlot
  split
  · exact ⟨rfl, rfl, rfl, rfl, rfl⟩
  · split
    · unfold deallocateSdmaQueue
      split
      · split <;> exact ⟨rfl, rfl, rfl, rfl, rfl⟩
      · split <;> exact ⟨rfl, rfl, rfl, rfl, rfl⟩
      · exact ⟨rfl, rfl, rfl, rfl, rfl⟩
    · exact ⟨rfl, rfl, rfl, rfl, rfl⟩

section
variable (h : Slots d s.free l)
  (ha : isSdma q.type = true → ∀ id, a.restore.map (·.1) = some id → id < maxSdmaQueues)
  (hok : allocateSlot d s q a = .ok (s', q'))
include h ha hok

theorem allocateSlot_ok :
    (q.type = .compute ∧ ∃ pipe bit, bit ∈ s.allocatedQueues pipe ∧
      s' = { s with
        allocatedQueues :=
          update s.allocatedQueues pipe (s.allocatedQueues pipe \ {bit})
        nextPipe := (pipe + 1) % d.pipes } ∧
      q' = { q with pipe := pipe, queue := bit }) ∨
    (q.type = .sdma ∧ ∃ id ∈ s.sdmaBitmap,
      s' = { s with sdmaBitmap := s.sdmaBitmap \ {id} } ∧
      q' = { q with
        sdmaId := id, sdmaEngineId := id % d.sdmaEngines, sdmaQueueId := id / d.sdmaEngines }) ∨
    (q.type = .sdmaXgmi ∧ ∃ id ∈ s.xgmiSdmaBitmap,
      s' = { s with xgmiSdmaBitmap := s.xgmiSdmaBitmap \ {id} } ∧
      q' = { q with
        sdmaId := id
        sdmaEngineId := d.sdmaEngines + id % d.xgmiEngines
        sdmaQueueId := id / d.xgmiEngines }) ∨
    (q.type ≠ .compute ∧ isSdma q.type = false ∧ s' = s ∧ q' = q) := by
  unfold allocateSlot at hok
  split at hok
  · next htype => exact .inl ⟨htype, allocateHqd_ok h hok⟩
  next hcompute =>
  split at hok
  · next hsdma =>
    unfold allocateSdmaQueue at hok
    split at hok
    · next htype =>
      obtain ⟨⟨map', id⟩, htake, heq⟩ := exists_of_map_ok hok
      have hmap : ∀ i ∈ s.sdmaBitmap, i < d.numSdmaQueues := by
        intro i hi
        have hall : i ∈ d.allSdma := h.sdma.free_subset hi
        exact Finset.mem_range.mp (Finset.mem_sdiff.mp hall).1
      obtain ⟨hin, rfl⟩ := takeSdma_ok hmap (ha hsdma) htake
      cases heq
      exact .inr (.inl ⟨htype, id, hin, rfl, rfl⟩)
    · next htype =>
      obtain ⟨⟨map', id⟩, htake, heq⟩ := exists_of_map_ok hok
      have hmap : ∀ i ∈ s.xgmiSdmaBitmap, i < d.numXgmiSdmaQueues := by
        intro i hi
        have hall : i ∈ d.allXgmi := h.xgmi.free_subset hi
        exact Finset.mem_range.mp hall
      obtain ⟨hin, rfl⟩ := takeSdma_ok hmap (ha hsdma) htake
      cases heq
      exact .inr (.inr (.inl ⟨htype, id, hin, rfl, rfl⟩))
    · next hsdma hno hno' =>
      cases htype : q.type <;> simp_all [isSdma]
  next hsdma =>
  cases hok
  exact .inr (.inr (.inr ⟨hcompute, by simpa using hsdma, rfl, rfl⟩))

theorem allocateSlot_slots : Slots d s'.free (q' :: l) := by
  rcases allocateSlot_ok h ha hok with ⟨htype, pipe, bit, hfree, rfl, rfl⟩ |
    ⟨htype, id, hfree, rfl, rfl⟩ | ⟨htype, id, hfree, rfl, rfl⟩ | ⟨hcompute, hsdma, rfl, rfl⟩
  · refine ⟨?_, ?_, ?_, forall_mem_cons.mpr ⟨?_, h.engines⟩⟩
    · simp only [Dqm.free, hqds_take]
      exact h.hqd.take (by simp [hqdOf, htype]) hfree
    · exact (Exclusive.skip (by simp [sdmaOf, htype])).mpr h.sdma
    · exact (Exclusive.skip (by simp [sdmaOf, htype])).mpr h.xgmi
    · simp [EngineOk, htype]
  · refine ⟨?_, ?_, ?_, forall_mem_cons.mpr ⟨?_, h.engines⟩⟩
    · exact (Exclusive.skip (by simp [hqdOf, htype])).mpr h.hqd
    · simp only [Dqm.free, bitmap_take]
      exact h.sdma.take (by simp [sdmaOf, htype]) hfree
    · exact (Exclusive.skip (by simp [sdmaOf, htype])).mpr h.xgmi
    · simp [EngineOk, htype]
  · refine ⟨?_, ?_, ?_, forall_mem_cons.mpr ⟨?_, h.engines⟩⟩
    · exact (Exclusive.skip (by simp [hqdOf, htype])).mpr h.hqd
    · exact (Exclusive.skip (by simp [sdmaOf, htype])).mpr h.sdma
    · simp only [Dqm.free, bitmap_take]
      exact h.xgmi.take (by simp [sdmaOf, htype]) hfree
    · simp [EngineOk, htype]
  · have hnot : q'.type ≠ .sdma ∧ q'.type ≠ .sdmaXgmi := by simpa [isSdma] using hsdma
    refine ⟨?_, ?_, ?_, forall_mem_cons.mpr ⟨?_, h.engines⟩⟩
    · exact (Exclusive.skip (by simp [hqdOf, hcompute])).mpr h.hqd
    · exact (Exclusive.skip (by simp [sdmaOf, hnot])).mpr h.sdma
    · exact (Exclusive.skip (by simp [sdmaOf, hnot])).mpr h.xgmi
    · simp [EngineOk, hnot]

theorem deallocateSlot_allocateSlot : (deallocateSlot d s' q').free = s.free := by
  have hslots := allocateSlot_slots h ha hok
  rcases allocateSlot_ok h ha hok with ⟨htype, pipe, bit, hfree, rfl, rfl⟩ |
    ⟨htype, id, hfree, rfl, rfl⟩ | ⟨htype, id, hfree, rfl, rfl⟩ | ⟨hcompute, hsdma, rfl, rfl⟩
  · simp [deallocateSlot, htype, deallocateHqd, Dqm.free, hfree]
  · have hid : id ∈ d.allSdma := h.sdma.free_subset hfree
    have hlt : ¬ d.numSdmaQueues ≤ id :=
      not_le.mpr (Finset.mem_range.mp (Finset.mem_sdiff.mp hid).1)
    simp [deallocateSlot, htype, deallocateSdmaQueue, isSdma, Dqm.free, hlt, hfree]
  · have hid : id ∈ d.allXgmi := h.xgmi.free_subset hfree
    have hlt : ¬ d.numXgmiSdmaQueues ≤ id := not_le.mpr (Finset.mem_range.mp hid)
    simp [deallocateSlot, htype, deallocateSdmaQueue, isSdma, Dqm.free, hlt, hfree]
  · simp [deallocateSlot, hcompute, hsdma]

theorem allocateSlot_frame :
    SameButSlots s s' ∧ q'.process = q.process ∧ q'.queueId = q.queueId ∧ q'.type = q.type := by
  rcases allocateSlot_ok h ha hok with ⟨htype, pipe, bit, hfree, rfl, rfl⟩ |
    ⟨htype, id, hfree, rfl, rfl⟩ | ⟨htype, id, hfree, rfl, rfl⟩ | ⟨hcompute, hsdma, rfl, rfl⟩ <;>
  exact ⟨⟨rfl, rfl, rfl, rfl, rfl⟩, rfl, rfl, rfl⟩

end

/-! ## Doorbells -/

@[simp] theorem mapQpd_qpd (s : Dqm) (p : Nat) (f : Qpd → Qpd) (x : Nat) :
    (s.mapQpd p f).qpd x = if x = p then f (s.qpd p) else s.qpd x := by
  by_cases hx : x = p
  · subst hx
    simp [Dqm.mapQpd]
  · simp [Dqm.mapQpd, hx]

@[simp] theorem mapQpd_vmidPasid (s : Dqm) (p : Nat) (f : Qpd → Qpd) :
    (s.mapQpd p f).vmidPasid = s.vmidPasid := rfl

variable {restoreId : Option Nat} {stray : Bool} {f : Qpd → Qpd} {p : Nat} {active : Nat → Prop}
  {i : Nat}

theorem deallocateDoorbell_doorbells (h : Doorbells d s.free (q :: l)) :
    Doorbells d (deallocateDoorbell d s q).free l := by
  have hfixed : ∀ x ∈ l, DoorbellOk d x := fun x hx => h.fixed x (mem_cons_of_mem _ hx)
  unfold deallocateDoorbell
  split
  · next hskip =>
    refine ⟨(Exclusive.skip ?_).mp h.cp, hfixed⟩
    rcases hskip with hskip | hskip <;> simp [cpDoorbellOf, hskip]
  next hskip =>
  obtain ⟨hsoc, hsdma⟩ : d.soc15 = true ∧ isSdma q.type = false := by simpa using hskip
  have hheld : cpDoorbellOf d q = some (q.process, q.doorbellId) := by
    simp [cpDoorbellOf, hsoc, hsdma]
  refine ⟨?_, hfixed⟩
  have hgive := h.cp.give hheld
  have hall := (h.cp.not_free mem_cons_self hheld).1
  convert hgive using 1
  ext ⟨p, b⟩
  by_cases hp : p = q.process
  · subst hp
    by_cases hb : b = q.doorbellId
    · subst hb
      simpa [Free.freeDoorbells, Dqm.free, hsoc] using hall.2.1
    · simp [Free.freeDoorbells, Dqm.free, hsoc, hb]
  · simp [Free.freeDoorbells, Dqm.free, hp]

/-- The part of the manager that has nothing to do with doorbells. -/
def SameButDoorbells (s s' : Dqm) : Prop :=
  s'.free = { s.free with doorbells := s'.free.doorbells } ∧ s'.queues = s.queues ∧
    s'.pending = s.pending ∧ s'.schedRunning = s.schedRunning

theorem sameButDoorbells_mapQpd (s : Dqm) (p : Nat) (hf : ∀ qpd, (f qpd).vmid = qpd.vmid) :
    SameButDoorbells s (s.mapQpd p f) := by
  refine ⟨?_, rfl, rfl, rfl⟩
  have hvmids : (fun x => ((s.mapQpd p f).qpd x).vmid) = fun x => (s.qpd x).vmid := by
    funext x
    rw [mapQpd_qpd]
    split
    · next hx => rw [hf, hx]
    · rfl
  simp only [Dqm.free, hvmids]
  rfl

theorem deallocateDoorbell_frame (d : Device) (s : Dqm) (q : Queue) :
    SameButDoorbells s (deallocateDoorbell d s q) := by
  unfold deallocateDoorbell
  split
  · exact ⟨rfl, rfl, rfl, rfl⟩
  · exact sameButDoorbells_mapQpd s q.process fun _ => rfl

section
variable
  (hrange : d.soc15 = true → isSdma q.type = false →
    ∀ id, restoreId = some id → id < maxQueuesPerProcess)
  (hok : allocateDoorbell d s q restoreId stray = .ok (s', q'))
include hrange hok

theorem allocateDoorbell_ok :
    ∃ id, q' = { q with doorbellId := id } ∧
      ((s' = s ∧ cpDoorbellOf d q' = none ∧ DoorbellOk d q') ∨
        d.soc15 = true ∧ isSdma q.type = false ∧ id < maxQueuesPerProcess ∧
          id ∉ (s.qpd q.process).doorbellBitmap ∧
          s' = s.mapQpd q.process fun qpd =>
            { qpd with doorbellBitmap := insert id (s.qpd q.process).doorbellBitmap }) := by
  unfold allocateDoorbell at hok
  dsimp only at hok
  split at hok
  · next hsoc =>
    split at hok
    · cases hok
    · cases hok
      exact ⟨_, rfl, .inl ⟨rfl, by simp [cpDoorbellOf, hsoc], by simp [DoorbellOk, hsoc]⟩⟩
  next hsoc =>
  have hsoc : d.soc15 = true := by simpa using hsoc
  split at hok
  · next hsdma =>
    split at hok
    · cases hok
    · cases hok
      exact ⟨_, rfl, .inl ⟨rfl, by simp [cpDoorbellOf, hsdma], by simp [DoorbellOk, hsoc]⟩⟩
  next hsdma =>
  have hsdma : isSdma q.type = false := by simpa using hsdma
  cases restoreId with
  | none =>
    dsimp only at hok
    split at hok
    · cases hok
    next hlt =>
    have hlt := not_le.mp hlt
    cases hok
    exact ⟨_, rfl, .inr ⟨hsoc, hsdma, hlt, findNextZeroBit_clear hlt, rfl⟩⟩
  | some id =>
    simp only [hrange hsoc hsdma id rfl, if_true, decide_eq_true_eq] at hok
    split at hok
    · cases hok
    next hfree =>
    cases hok
    exact ⟨_, rfl, .inr ⟨hsoc, hsdma, hrange hsoc hsdma id rfl, hfree, rfl⟩⟩

theorem allocateDoorbell_doorbells (h : Doorbells d s.free l) :
    Doorbells d s'.free (q' :: l) := by
  obtain ⟨id, rfl, ⟨rfl, hnone, hfixed⟩ | ⟨hsoc, hsdma, hlt, hfree, rfl⟩⟩ :=
    allocateDoorbell_ok hrange hok
  · exact ⟨(Exclusive.skip hnone).mpr h.cp, forall_mem_cons.mpr ⟨hfixed, h.fixed⟩⟩
  · refine ⟨?_, forall_mem_cons.mpr ⟨by simp [DoorbellOk, hsoc, hsdma], h.fixed⟩⟩
    have htake := h.cp.take (x := { q with doorbellId := id }) (a := (q.process, id))
      (by simp [cpDoorbellOf, hsoc, hsdma]) ⟨hsoc, hlt, hfree⟩
    convert htake using 1
    ext ⟨p, b⟩
    by_cases hp : p = q.process
    · subst hp
      simp [Free.freeDoorbells, Dqm.free, hsoc]
      tauto
    · simp [Free.freeDoorbells, Dqm.free, hp]

theorem allocateDoorbell_frame : SameButDoorbells s s' := by
  obtain ⟨id, rfl, ⟨rfl, -, -⟩ | ⟨-, -, -, -, rfl⟩⟩ := allocateDoorbell_ok hrange hok
  · exact ⟨rfl, rfl, rfl, rfl⟩
  · exact sameButDoorbells_mapQpd s q.process fun _ => rfl

theorem deallocateDoorbell_allocateDoorbell :
    (deallocateDoorbell d s' q').free = s.free := by
  obtain ⟨id, rfl, ⟨rfl, hnone, -⟩ | ⟨hsoc, hsdma, -, hfree, rfl⟩⟩ :=
    allocateDoorbell_ok hrange hok
  · have hskip : d.soc15 = false ∨ isSdma q.type = true := by
      by_contra hno
      obtain ⟨hsoc, hsdma⟩ : d.soc15 = true ∧ isSdma q.type = false := by simpa using hno
      simp [cpDoorbellOf, hsoc, hsdma] at hnone
    simp [deallocateDoorbell, hskip]
  · have hno : ¬ (d.soc15 = false ∨ isSdma q.type = true) := by simp [hsoc, hsdma]
    simp only [deallocateDoorbell, hno, if_false]
    have hbitmap : ∀ x, (((s.mapQpd q.process fun qpd =>
        { qpd with doorbellBitmap := insert id (s.qpd q.process).doorbellBitmap }).mapQpd q.process
          fun qpd => { qpd with doorbellBitmap := qpd.doorbellBitmap \ {id} }).qpd x) =
        s.qpd x := by
      intro x
      by_cases hx : x = q.process
      · subst hx
        simp [Finset.sdiff_singleton_eq_erase, Finset.erase_eq_of_notMem hfree]
      · simp [hx]
    simp only [Dqm.free, hbitmap]
    rfl

end

theorem deallocateDoorbell_pending (d : Device) (s : Dqm) (q : Queue) (pending : List Queue) :
    deallocateDoorbell d { s with pending := pending } q =
      { deallocateDoorbell d s q with pending := pending } := by
  unfold deallocateDoorbell
  split <;> rfl

/-! ## VMIDs -/

theorem Vmids.congr {f f' : Free} {active active' : Nat → Prop} (h : Vmids d f active)
    (hpasid : f'.vmidPasid = f.vmidPasid) (hvmids : f'.vmids = f.vmids)
    (hactive : ∀ p, active' p ↔ active p) : Vmids d f' active' := by
  obtain rfl : active' = active := funext fun p => propext (hactive p)
  exact ⟨hvmids ▸ hpasid ▸ h.owns, hvmids ▸ h.distinct, hvmids ▸ hpasid ▸ h.used, hvmids ▸ h.idle⟩

theorem allocateVmid_ok (hok : allocateVmid d s p = .ok s') :
    ∃ v, d.firstVmid ≤ v ∧ v ≤ d.lastVmid ∧ s.vmidPasid v = 0 ∧
      s' = { s with vmidPasid := update s.vmidPasid v (d.pasid p) }.mapQpd p
        ({ · with vmid := v }) := by
  unfold allocateVmid at hok
  split at hok
  · cases hok
  next v hfind =>
  cases hok
  have hmem := mem_of_find?_eq_some hfind
  have hzero := find?_some hfind
  rw [mem_range'_1] at hmem
  exact ⟨v, by omega, by omega, by simpa using hzero, rfl⟩

theorem allocateVmid_vmids (h : Vmids d s.free active) (hok : allocateVmid d s p = .ok s')
    (hp : ¬ active p) :
    Vmids d s'.free fun x => active x ∨ x = p := by
  obtain ⟨v, hfirst, hlast, hzero, rfl⟩ := allocateVmid_ok hok
  have hother : ∀ x, active x → (s.qpd x).vmid ≠ v := by
    intro x hx hv
    have hpasid := (h.owns x hx).2.2
    simp only [Dqm.free, hv, hzero] at hpasid
    exact d.pasid_ne x hpasid.symm
  have hne : ∀ x, active x → x ≠ p := fun x hx heq => hp (heq ▸ hx)
  constructor
  · rintro x (hx | rfl)
    · simpa [Dqm.free, hne x hx, hother x hx] using h.owns x hx
    · simp [Dqm.free, hfirst, hlast]
  · rintro x y (hx | rfl) (hy | rfl) heq
    · refine h.distinct x y hx hy ?_
      simpa [Dqm.free, hne x hx, hne y hy] using heq
    · exact absurd (by simpa [Dqm.free, hne x hx] using heq) (hother x hx)
    · exact absurd (by simpa [Dqm.free, hne y hy] using heq.symm) (hother y hy)
    · rfl
  · intro w hw hw' hused
    by_cases hwv : w = v
    · subst hwv
      exact ⟨p, .inr rfl, by simp [Dqm.free]⟩
    · obtain ⟨x, hx, rfl⟩ := h.used w hw hw' (by simpa [Dqm.free, hwv] using hused)
      exact ⟨x, .inl hx, by simp [Dqm.free, hne x hx]⟩
  · intro x hx
    obtain ⟨hidle, hxp⟩ := not_or.mp hx
    simpa [Dqm.free, hxp] using h.idle x hidle

theorem deallocateVmid_vmids (h : Vmids d s.free active) (hp : active p) :
    Vmids d (deallocateVmid s p).free fun x => active x ∧ x ≠ p := by
  have hother : ∀ x, active x → x ≠ p → (s.qpd x).vmid ≠ (s.qpd p).vmid :=
    fun x hx hne heq => hne (h.distinct x p hx hp heq)
  constructor
  · rintro x ⟨hx, hne⟩
    simpa [deallocateVmid, Dqm.free, hne, hother x hx hne] using h.owns x hx
  · rintro x y ⟨hx, hnex⟩ ⟨hy, hney⟩ heq
    refine h.distinct x y hx hy ?_
    simpa [deallocateVmid, Dqm.free, hnex, hney] using heq
  · intro w hw hw' hused
    have hne : w ≠ (s.qpd p).vmid := by
      rintro rfl
      simp [deallocateVmid, Dqm.free, Dqm.mapQpd] at hused
    have hused : s.free.vmidPasid w ≠ 0 := by
      simpa [deallocateVmid, Dqm.free, Dqm.mapQpd, hne] using hused
    obtain ⟨x, hx, rfl⟩ := h.used w hw hw' hused
    have hxp : x ≠ p := fun heq => hne (by rw [heq]; rfl)
    exact ⟨x, ⟨hx, hxp⟩, by simp [deallocateVmid, Dqm.free, hxp]⟩
  · intro x hx
    by_cases hxp : x = p
    · simp [deallocateVmid, Dqm.free, hxp]
    · simpa [deallocateVmid, Dqm.free, hxp] using h.idle x fun hactive => hx ⟨hactive, hxp⟩

/-! ## What the parts depend on -/

def slotKey (q : Queue) : QueueManager.QueueType × Nat × Nat × Nat × Nat × Nat :=
  (q.type, q.pipe, q.queue, q.sdmaId, q.sdmaEngineId, q.sdmaQueueId)

def doorbellKey (q : Queue) : QueueManager.QueueType × Nat × Nat × Nat × Nat × Nat :=
  (q.type, q.process, q.queueId, q.doorbellId, q.sdmaEngineId, q.sdmaQueueId)

theorem filterMap_of_map_eq {κ α : Type} {key : Queue → κ} {g : Queue → Option α}
    (hg : ∀ x y, key x = key y → g x = g y) {l l' : List Queue} (h : l'.map key = l.map key) :
    l'.filterMap g = l.filterMap g := by
  induction l generalizing l' with
  | nil =>
    cases l' with
    | nil => rfl
    | cons y l' => cases h
  | cons x l ih =>
    cases l' with
    | nil => cases h
    | cons y l' =>
      obtain ⟨hkey, hrest⟩ := cons_eq_cons.mp h
      rw [filterMap_cons, filterMap_cons, hg y x hkey, ih hrest]

theorem forall_mem_of_map_eq {κ : Type} {key : Queue → κ} {P : Queue → Prop}
    (hP : ∀ x y, key x = key y → P x → P y) {l l' : List Queue} (h : l'.map key = l.map key)
    (hl : ∀ q ∈ l, P q) : ∀ q ∈ l', P q := by
  intro q hq
  have hin : key q ∈ l.map key := h ▸ mem_map_of_mem hq
  obtain ⟨x, hx, heq⟩ := mem_map.mp hin
  exact hP x q heq (hl x hx)

theorem slotKey_inj {x y : Queue} (h : slotKey x = slotKey y) :
    x.type = y.type ∧ x.pipe = y.pipe ∧ x.queue = y.queue ∧ x.sdmaId = y.sdmaId ∧
      x.sdmaEngineId = y.sdmaEngineId ∧ x.sdmaQueueId = y.sdmaQueueId := by
  simpa [slotKey] using h

theorem doorbellKey_inj {x y : Queue} (h : doorbellKey x = doorbellKey y) :
    x.type = y.type ∧ x.process = y.process ∧ x.queueId = y.queueId ∧
      x.doorbellId = y.doorbellId ∧ x.sdmaEngineId = y.sdmaEngineId ∧
      x.sdmaQueueId = y.sdmaQueueId := by
  simpa [doorbellKey] using h

theorem Slots.congr {f f' : Free} {l l' : List Queue} (h : Slots d f l) (hhqds : f'.hqds = f.hqds)
    (hsdma : f'.sdma = f.sdma) (hxgmi : f'.xgmi = f.xgmi) (hl : l'.map slotKey = l.map slotKey) :
    Slots d f' l' := by
  obtain ⟨hqd, sdma, xgmi, engines⟩ := h
  have hsdmaOf : ∀ type x y, slotKey x = slotKey y → sdmaOf type x = sdmaOf type y := by
    intro type x y hkey
    obtain ⟨htype, -, -, hid, -⟩ := slotKey_inj hkey
    simp [sdmaOf, htype, hid]
  refine ⟨?_, ?_, ?_, forall_mem_of_map_eq ?_ hl engines⟩
  · rw [hhqds]
    refine hqd.of_filterMap_eq (filterMap_of_map_eq ?_ hl)
    intro x y hkey
    obtain ⟨htype, hpipe, hqueue, -⟩ := slotKey_inj hkey
    simp [hqdOf, htype, hpipe, hqueue]
  · rw [hsdma]
    exact sdma.of_filterMap_eq (filterMap_of_map_eq (hsdmaOf _) hl)
  · rw [hxgmi]
    exact xgmi.of_filterMap_eq (filterMap_of_map_eq (hsdmaOf _) hl)
  · intro x y hkey hx
    obtain ⟨htype, -, -, hid, hengine, hqueue⟩ := slotKey_inj hkey
    simpa only [EngineOk, htype, hid, hengine, hqueue] using hx

theorem Doorbells.congr {f f' : Free} {l l' : List Queue} (h : Doorbells d f l)
    (hdoorbells : f'.doorbells = f.doorbells) (hl : l'.map doorbellKey = l.map doorbellKey) :
    Doorbells d f' l' := by
  obtain ⟨cp, fixed⟩ := h
  refine ⟨?_, forall_mem_of_map_eq ?_ hl fixed⟩
  · unfold Free.freeDoorbells
    rw [hdoorbells]
    refine cp.of_filterMap_eq (filterMap_of_map_eq ?_ hl)
    intro x y hkey
    obtain ⟨htype, hprocess, -, hid, -⟩ := doorbellKey_inj hkey
    simp [cpDoorbellOf, htype, hprocess, hid]
  · intro x y hkey hx
    obtain ⟨htype, -, hid, hdoorbell, hengine, hqueue⟩ := doorbellKey_inj hkey
    simpa only [DoorbellOk, htype, hid, hdoorbell, hengine, hqueue] using hx

theorem Slots.perm {f : Free} {l l' : List Queue} (h : Slots d f l) (hp : l.Perm l') :
    Slots d f l' :=
  ⟨h.hqd.perm hp, h.sdma.perm hp, h.xgmi.perm hp, fun q hq => h.engines q (hp.mem_iff.mpr hq)⟩

theorem Doorbells.perm {f : Free} {l l' : List Queue} (h : Doorbells d f l) (hp : l.Perm l') :
    Doorbells d f l' :=
  ⟨h.cp.perm hp, fun q hq => h.fixed q (hp.mem_iff.mpr hq)⟩

/-! ## Giving back -/

theorem Slots.of_sameButDoorbells (h : Slots d s.free l) (hframe : SameButDoorbells s s') :
    Slots d s'.free l := by
  obtain ⟨hfree, -⟩ := hframe
  rw [hfree]
  exact h.congr rfl rfl rfl rfl

theorem Doorbells.of_sameButSlots (h : Doorbells d s.free l) (hframe : SameButSlots s s') :
    Doorbells d s'.free l := by
  obtain ⟨hqpd, -⟩ := hframe
  exact h.congr (by simp only [Dqm.free, hqpd]) rfl

theorem Vmids.of_sameButDoorbells (h : Vmids d s.free active) (hframe : SameButDoorbells s s') :
    Vmids d s'.free active := by
  obtain ⟨hfree, -⟩ := hframe
  rw [hfree]
  exact h.congr rfl rfl fun _ => Iff.rfl

theorem Vmids.of_sameButSlots (h : Vmids d s.free active) (hframe : SameButSlots s s') :
    Vmids d s'.free active := by
  obtain ⟨hqpd, hpasid, -⟩ := hframe
  exact h.congr hpasid (by simp only [Dqm.free, hqpd]) fun _ => Iff.rfl

def SameButVmids (s s' : Dqm) : Prop :=
  s'.free = { s.free with vmidPasid := s'.free.vmidPasid, vmids := s'.free.vmids } ∧
    s'.queues = s.queues ∧ s'.pending = s.pending ∧ s'.schedRunning = s.schedRunning

theorem sameButVmids_mapQpd (s : Dqm) (p : Nat) (pasids : Nat → Nat)
    (hf : ∀ qpd, (f qpd).doorbellBitmap = qpd.doorbellBitmap) :
    SameButVmids s ({ s with vmidPasid := pasids }.mapQpd p f) := by
  refine ⟨?_, rfl, rfl, rfl⟩
  have hdoorbells :
      (fun x => (({ s with vmidPasid := pasids }.mapQpd p f).qpd x).doorbellBitmap) =
        fun x => (s.qpd x).doorbellBitmap := by
    funext x
    rw [mapQpd_qpd]
    split
    · next hx => rw [hf, hx]
    · rfl
  simp only [Dqm.free, hdoorbells]
  rfl

theorem deallocateVmid_frame (s : Dqm) (p : Nat) : SameButVmids s (deallocateVmid s p) :=
  sameButVmids_mapQpd s p _ fun _ => rfl

theorem releaseVmid_frame (s : Dqm) (p : Nat) : SameButVmids s (releaseVmid s p) := by
  unfold releaseVmid
  split
  · exact deallocateVmid_frame s p
  · exact ⟨rfl, rfl, rfl, rfl⟩

theorem Slots.of_sameButVmids (h : Slots d s.free l) (hframe : SameButVmids s s') :
    Slots d s'.free l := by
  obtain ⟨hfree, -⟩ := hframe
  rw [hfree]
  exact h.congr rfl rfl rfl rfl

theorem Doorbells.of_sameButVmids (h : Doorbells d s.free l) (hframe : SameButVmids s s') :
    Doorbells d s'.free l := by
  obtain ⟨hfree, -⟩ := hframe
  rw [hfree]
  exact h.congr rfl rfl

theorem releaseVmid_vmids {active active' : Nat → Prop} (h : Vmids d s.free active)
    (hp : active p) (hactive : ∀ x, active' x ↔ active x ∧ (s.queuesList p = [] → x ≠ p)) :
    Vmids d (releaseVmid s p).free active' := by
  unfold releaseVmid
  split
  · next hnil =>
    exact (deallocateVmid_vmids h hp).congr rfl rfl fun x => by simp [hactive, hnil]
  · next hne => exact h.congr rfl rfl fun x => by simp [hactive, hne]

theorem deallocateVmid_free (s : Dqm) (p : Nat) :
    (deallocateVmid s p).free =
      { s.free with
        vmidPasid := update s.free.vmidPasid (s.free.vmids p) 0
        vmids := update s.free.vmids p 0 } := by
  have hvmids : (fun x => ((deallocateVmid s p).qpd x).vmid) =
      update (fun x => (s.qpd x).vmid) p 0 := by
    funext x
    by_cases hx : x = p
    · subst hx
      simp [deallocateVmid]
    · simp [deallocateVmid, hx]
  rw [(deallocateVmid_frame s p).1]
  simp only [Dqm.free, hvmids]
  rfl

theorem releaseVmid_free_congr (hfree : s.free = s'.free) (hqueues : s.queues = s'.queues) :
    (releaseVmid s p).free = (releaseVmid s' p).free := by
  unfold releaseVmid Dqm.queuesList
  rw [hqueues]
  split
  · rw [deallocateVmid_free, deallocateVmid_free, hfree]
  · exact hfree

def Free.giveSlot (d : Device) (f : Free) (q : Queue) : Free :=
  match q.type with
  | .compute =>
    { f with hqds := update f.hqds q.pipe (insert q.queue (f.hqds q.pipe)) }
  | .sdma =>
    if d.numSdmaQueues ≤ q.sdmaId then f else { f with sdma := insert q.sdmaId f.sdma }
  | .sdmaXgmi =>
    if d.numXgmiSdmaQueues ≤ q.sdmaId then f else { f with xgmi := insert q.sdmaId f.xgmi }
  | _ => f

theorem deallocateSlot_free (d : Device) (s : Dqm) (q : Queue) :
    (deallocateSlot d s q).free = s.free.giveSlot d q := by
  unfold deallocateSlot Free.giveSlot
  cases htype : q.type with
  | compute => rfl
  | sdma =>
    by_cases hid : d.numSdmaQueues ≤ q.sdmaId <;>
      simp [isSdma, deallocateSdmaQueue, htype, hid, Dqm.free]
  | sdmaXgmi =>
    by_cases hid : d.numXgmiSdmaQueues ≤ q.sdmaId <;>
      simp [isSdma, deallocateSdmaQueue, htype, hid, Dqm.free]
  | hiq => simp [isSdma]
  | diq => simp [isSdma]

theorem deallocateSlot_free_congr (hfree : s.free = s'.free) (hkey : slotKey q = slotKey q') :
    (deallocateSlot d s q).free = (deallocateSlot d s' q').free := by
  obtain ⟨htype, hpipe, hqueue, hid, -⟩ := slotKey_inj hkey
  rw [deallocateSlot_free, deallocateSlot_free, hfree]
  unfold Free.giveSlot
  rw [htype, hpipe, hqueue, hid]

theorem deallocateVmid_allocateVmid (hok : allocateVmid d s p = .ok s')
    (hzero : (s.qpd p).vmid = 0) : (deallocateVmid s' p).free = s.free := by
  obtain ⟨v, -, -, hv, rfl⟩ := allocateVmid_ok hok
  have hqpd : ∀ x, (deallocateVmid ({ s with
      vmidPasid := update s.vmidPasid v (d.pasid p) }.mapQpd p
        ({ · with vmid := v })) p).qpd x = s.qpd x := by
    intro x
    by_cases hx : x = p
    · subst hx
      simp [deallocateVmid, ← hzero]
    · simp [deallocateVmid, hx]
  have hpasid : update (update s.vmidPasid v (d.pasid p)) v 0 =
      s.vmidPasid := by
    rw [update_idem, ← hv, update_eq_self]
  simp only [Dqm.free, hqpd]
  simp [deallocateVmid, Dqm.mapQpd, hpasid]

/-! ## Creating queues -/

theorem active_iff : s.Active p ↔ s.busy p = true ∨ s.queuesList p ≠ [] := by
  simp only [Dqm.Active, Dqm.live, mem_append, Dqm.busy, any_eq_true, decide_eq_true_eq,
    Dqm.queuesList, ne_eq, filter_eq_nil_iff, not_forall, not_not, or_and_right, exists_or,
    exists_prop]

theorem beginVmid (h : Inv d s) (hbusy : s.busy a.process = false)
    (hok : (if s.queuesList a.process = [] then allocateVmid d s a.process else .ok s) = .ok s') :
    SameButVmids s s' ∧ (Vmids d s'.free fun x => s.Active x ∨ x = a.process) ∧
      (releaseVmid s' a.process).free = s.free := by
  split at hok
  · next hnil =>
    have hidle : ¬ s.Active a.process := by
      rw [active_iff]
      simp [hbusy, hnil]
    have hframe : SameButVmids s s' := by
      obtain ⟨v, -, -, -, rfl⟩ := allocateVmid_ok hok
      exact sameButVmids_mapQpd s _ _ fun _ => rfl
    refine ⟨hframe, allocateVmid_vmids h.vmids hok hidle, ?_⟩
    have hnil' : s'.queuesList a.process = [] := by
      unfold Dqm.queuesList
      rw [hframe.2.1]
      exact hnil
    rw [releaseVmid, if_pos hnil']
    exact deallocateVmid_allocateVmid hok (h.vmids.idle _ hidle)
  · next hne =>
    cases hok
    have hactive : s.Active a.process := active_iff.mpr (.inr hne)
    refine ⟨⟨rfl, rfl, rfl, rfl⟩, h.vmids.congr rfl rfl fun x => ?_, ?_⟩
    · exact ⟨fun hx => hx.elim id fun heq => heq ▸ hactive, .inl⟩
    · rw [releaseVmid, if_neg hne]

theorem createQueueBegin_cases (h : Inv d s) (hbusy : s.busy a.process = false)
    (ha : a.InRange d) :
    (∃ s' e, createQueueBegin d s a = (s', some e) ∧ s'.free = s.free ∧ s'.queues = s.queues ∧
      s'.pending = s.pending) ∨
    ∃ (s' : Dqm) (q : Queue),
      createQueueBegin d s a = ({ s' with pending := q :: s.pending }, none) ∧
      s'.queues = s.queues ∧ q.process = a.process ∧ q.queueId = a.queueId ∧
      Slots d s'.free (q :: s.live) ∧ Doorbells d s'.free (q :: s.live) ∧
      (Vmids d s'.free fun x => s.Active x ∨ x = a.process) ∧
      ∀ pending, (undoCreate d { s' with pending := pending } q).free = s.free := by
  unfold createQueueBegin
  split
  · exact .inl ⟨s, _, rfl, rfl, rfl, rfl⟩
  split
  · exact .inl ⟨s, _, rfl, rfl, rfl, rfl⟩
  next s1 hvmid =>
  obtain ⟨hframe1, hvmids1, hback1⟩ := beginVmid h hbusy hvmid
  have hslots1 := h.slots.of_sameButVmids hframe1
  have hdoorbells1 := h.doorbells.of_sameButVmids hframe1
  split
  · next e _ =>
    have hrelease := releaseVmid_frame s1 a.process
    exact .inl ⟨_, e, rfl, hback1, hrelease.2.1.trans hframe1.2.1,
      hrelease.2.2.1.trans hframe1.2.2.1⟩
  next s2 q2 hslot =>
  have hslots2 := allocateSlot_slots hslots1 ha.1 hslot
  obtain ⟨hframe2, hprocess, hid, htype⟩ := allocateSlot_frame hslots1 ha.1 hslot
  have hdoorbells2 := hdoorbells1.of_sameButSlots hframe2
  have hvmids2 := hvmids1.of_sameButSlots hframe2
  have hqueues2 : s2.queues = s.queues := hframe2.2.2.1.trans hframe1.2.1
  have hpending2 : s2.pending = s.pending := hframe2.2.2.2.1.trans hframe1.2.2.1
  have hback2 : ∀ s' q', s'.free = s2.free → s'.queues = s.queues → slotKey q' = slotKey q2 →
      (releaseVmid (deallocateSlot d s' q') a.process).free = s.free := by
    intro s' q' hfree hqueues hkey
    refine (releaseVmid_free_congr ?_ ?_).trans hback1
    · rw [deallocateSlot_free_congr hfree hkey]
      exact deallocateSlot_allocateSlot hslots1 ha.1 hslot
    · exact ((deallocateSlot_frame d s' q').2.2.1.trans hqueues).trans hframe1.2.1.symm
  split
  · next e _ =>
    have hrelease := releaseVmid_frame (deallocateSlot d s2 q2) a.process
    have hslot' := deallocateSlot_frame d s2 q2
    exact .inl ⟨_, e, rfl, hback2 s2 q2 rfl hqueues2 rfl,
      hrelease.2.1.trans (hslot'.2.2.1.trans hqueues2),
      hrelease.2.2.1.trans (hslot'.2.2.2.1.trans hpending2)⟩
  next s3 q3 hdoorbell =>
  have hrange := ha.2
  rw [← show q2.type = a.props.type from htype] at hrange
  have hframe3 := allocateDoorbell_frame hrange hdoorbell
  obtain ⟨id, rfl, -⟩ := allocateDoorbell_ok hrange hdoorbell
  have hqueues3 : s3.queues = s.queues := hframe3.2.1.trans hqueues2
  refine .inr ⟨s3, { q2 with doorbellId := id }, ?_, hqueues3, hprocess, hid, ?_,
    allocateDoorbell_doorbells hrange hdoorbell hdoorbells2,
    hvmids2.of_sameButDoorbells hframe3, ?_⟩
  · rw [hframe3.2.2.1, hpending2]
  · exact (hslots2.of_sameButDoorbells hframe3).congr rfl rfl rfl rfl
  · intro pending
    have hundo := deallocateDoorbell_frame d { s3 with pending := pending }
      { q2 with doorbellId := id }
    have hfree : (deallocateDoorbell d { s3 with pending := pending }
        { q2 with doorbellId := id }).free = s2.free := by
      rw [deallocateDoorbell_pending]
      exact deallocateDoorbell_allocateDoorbell hrange hdoorbell
    have hback := hback2 _ { q2 with doorbellId := id } hfree (hundo.2.1.trans hqueues3) rfl
    rw [← show q2.process = a.process from hprocess] at hback
    exact hback

theorem inv_createQueueBegin (h : Inv d s) (hbusy : s.busy a.process = false) (ha : a.InRange d)
    (hfresh : ∀ q ∈ s.live, q.process = a.process → q.queueId ≠ a.queueId) :
    Inv d (createQueueBegin d s a).1 := by
  rcases createQueueBegin_cases h hbusy ha with
    ⟨s', e, heq, hfree, hqueues, hpending⟩ |
    ⟨s', q, heq, hqueues, hprocess, hid, hslots, hdoorbells, hvmids, -⟩
  · rw [heq]
    have hlive : s'.live = s.live := by rw [Dqm.live, Dqm.live, hqueues, hpending]
    have hactive : s'.Active = s.Active := by
      funext p
      rw [Dqm.Active, Dqm.Active, hlive]
    exact ⟨by rw [hfree, hlive]; exact h.slots, by rw [hfree, hlive]; exact h.doorbells,
      by rw [hlive]; exact h.ids, by rw [hfree, hactive]; exact h.vmids,
      by rw [hpending]; exact h.one⟩
  · rw [heq]
    have hlive : ({ s' with pending := q :: s.pending } : Dqm).live = q :: s.live := by
      simp [Dqm.live, hqueues]
    refine ⟨by rw [hlive]; exact hslots, by rw [hlive]; exact hdoorbells, ?_, ?_, ?_⟩
    · rw [hlive, map_cons, nodup_cons]
      refine ⟨fun hin => ?_, h.ids⟩
      obtain ⟨x, hx, hkey⟩ := mem_map.mp hin
      obtain ⟨hp, hi⟩ := Prod.mk.inj hkey
      exact hfresh x hx (hp.trans hprocess) (hi.trans hid)
    · refine hvmids.congr rfl rfl fun p => ?_
      simp only [Dqm.Active, hlive, mem_cons, or_and_right, exists_or, exists_eq_left,
        hprocess]
      rw [or_comm, eq_comm]
    · rw [map_cons, nodup_cons]
      refine ⟨fun hin => ?_, h.one⟩
      obtain ⟨x, hx, hkey⟩ := mem_map.mp hin
      have hbusy' : s.busy a.process = true := by
        simp only [Dqm.busy, any_eq_true, decide_eq_true_eq]
        exact ⟨x, hx, hkey.trans hprocess⟩
      simp [hbusy] at hbusy'

theorem mapQpd_free (s : Dqm) (p : Nat)
    (hdoorbell : ∀ qpd, (f qpd).doorbellBitmap = qpd.doorbellBitmap)
    (hvmid : ∀ qpd, (f qpd).vmid = qpd.vmid) : (s.mapQpd p f).free = s.free := by
  have hdoorbells : (s.mapQpd p f).free.doorbells = s.free.doorbells := by
    rw [(sameButVmids_mapQpd s p s.vmidPasid hdoorbell).1]
  rw [(sameButDoorbells_mapQpd s p hvmid).1, hdoorbells]

@[simp] theorem countQueue_free (s : Dqm) (p : Nat) (n : Int) :
    (s.countQueue p n).free = s.free := by
  apply mapQpd_free <;> exact fun _ => rfl

@[simp] theorem setReset_free (s : Dqm) (p : Nat) (b : Bool) :
    (s.setReset p b).free = s.free := by
  apply mapQpd_free <;> exact fun _ => rfl

@[simp] theorem incrementQueueCount_free (s : Dqm) (q : Queue) :
    (incrementQueueCount s q).free = s.free := by
  unfold incrementQueueCount
  rw [mapQpd_free] <;> intros <;> rfl

@[simp] theorem decrementQueueCount_free (s : Dqm) (q : Queue) :
    (decrementQueueCount s q).free = s.free := by
  unfold decrementQueueCount
  rw [mapQpd_free] <;> intros <;> rfl

theorem Inv.of_perm (h : Inv d s) (hfree : s'.free = s.free) (hlive : s.live.Perm s'.live)
    (hone : (s'.pending.map (·.process)).Nodup) : Inv d s' := by
  refine ⟨hfree ▸ h.slots.perm hlive, hfree ▸ h.doorbells.perm hlive,
    (hlive.map _).nodup_iff.mp h.ids, ?_, hone⟩
  refine h.vmids.congr (by rw [hfree]) (by rw [hfree]) fun p => ?_
  simp only [Dqm.Active, hlive.mem_iff]

theorem Inv.of_leave (h : Inv d s) (hlive : s.live.Perm (q :: s'.live))
    (hslots : Slots d s.free (q :: s'.live) → Slots d s'.free s'.live)
    (hdoorbells : Doorbells d s.free (q :: s'.live) → Doorbells d s'.free s'.live)
    (hvmids : Vmids d s.free s.Active → s.Active q.process → Vmids d s'.free s'.Active)
    (hone : (s'.pending.map (·.process)).Nodup) : Inv d s' := by
  have hq : q ∈ s.live := hlive.mem_iff.mpr mem_cons_self
  refine ⟨hslots (h.slots.perm hlive), hdoorbells (h.doorbells.perm hlive), ?_,
    hvmids h.vmids ⟨q, hq, rfl⟩, hone⟩
  have hids := (hlive.map fun q => (q.process, q.queueId)).nodup_iff.mp h.ids
  rw [map_cons, nodup_cons] at hids
  exact hids.2

theorem active_leave {x : Nat} (hlive : s.live.Perm (q :: s'.live))
    (hlast : s'.Active q.process ↔ s'.queuesList q.process ≠ []) :
    s'.Active x ↔ s.Active x ∧ (s'.queuesList q.process = [] → x ≠ q.process) := by
  have hsplit : s.Active x ↔ q.process = x ∨ s'.Active x := by
    simp only [Dqm.Active, hlive.mem_iff, mem_cons, or_and_right, exists_or, exists_eq_left]
  rw [hsplit]
  constructor
  · rintro hx
    refine ⟨.inr hx, ?_⟩
    rintro hnil rfl
    exact hlast.mp hx hnil
  · rintro ⟨rfl | hx, hnil⟩
    · exact hlast.mpr fun h => hnil h rfl
    · exact hx

theorem perm_eraseIdx {l : List Queue} (hq : l[i]? = some q) : l.Perm (q :: l.eraseIdx i) := by
  obtain ⟨hi, rfl⟩ := List.getElem?_eq_some_iff.mp hq
  exact (getElem_cons_eraseIdx_perm hi).symm

theorem inv_undoCreate (h : Inv d s) (hq : s.pending[i]? = some q)
    (hs' : s' = { s with pending := s.pending.eraseIdx i }) : Inv d (undoCreate d s' q) := by
  have hfree : s'.free = s.free := by
    rw [hs']
    rfl
  have hd := deallocateDoorbell_frame d s' q
  have hs := deallocateSlot_frame d (deallocateDoorbell d s' q) q
  have hv := releaseVmid_frame (deallocateSlot d (deallocateDoorbell d s' q) q) q.process
  have hpending : (undoCreate d s' q).pending = s.pending.eraseIdx i :=
    hv.2.2.1.trans (hs.2.2.2.1.trans (hd.2.2.1.trans (by rw [hs'])))
  have hqueues : (deallocateSlot d (deallocateDoorbell d s' q) q).queues = s.queues :=
    hs.2.2.1.trans (hd.2.1.trans (by rw [hs']))
  have hqueues' : (undoCreate d s' q).queues = s.queues := hv.2.1.trans hqueues
  have hperm := perm_eraseIdx hq
  have hlive : s.live.Perm (q :: (undoCreate d s' q).live) := by
    unfold Dqm.live
    rw [hpending, hqueues']
    exact hperm.append_right s.queues
  have hone := (hperm.map (·.process)).nodup_iff.mp h.one
  rw [map_cons, nodup_cons] at hone
  refine h.of_leave hlive ?_ ?_ ?_ (by rw [hpending]; exact hone.2)
  · intro hslots
    rw [← hfree] at hslots
    exact (deallocateSlot_slots (hslots.of_sameButDoorbells hd)).of_sameButVmids hv
  · intro hdoorbells
    rw [← hfree] at hdoorbells
    exact ((deallocateDoorbell_doorbells hdoorbells).of_sameButSlots hs).of_sameButVmids hv
  · intro hvmids hactive
    rw [← hfree] at hvmids
    refine releaseVmid_vmids ((hvmids.of_sameButDoorbells hd).of_sameButSlots hs) hactive ?_
    intro x
    -- the process has no other creation under way
    have hidle : (undoCreate d s' q).busy q.process = false := by
      rw [Dqm.busy, hpending, any_eq_false]
      intro y hy heq
      exact hone.1 (mem_map.mpr ⟨y, hy, by simpa using heq⟩)
    have hlist : (deallocateSlot d (deallocateDoorbell d s' q) q).queuesList q.process =
        (undoCreate d s' q).queuesList q.process := by
      rw [Dqm.queuesList, Dqm.queuesList, hqueues, hqueues']
    rw [hlist]
    refine active_leave hlive ?_
    rw [active_iff, hidle]
    simp

theorem addQueueToList_free (s : Dqm) (q : Queue) : (addQueueToList s q).free = s.free := by
  unfold addQueueToList
  dsimp only
  split
  · rw [incrementQueueCount_free, countQueue_free]
    rfl
  · rw [countQueue_free]
    rfl

theorem addQueueToList_lists (s : Dqm) (q : Queue) :
    (addQueueToList s q).queues = q :: s.queues ∧ (addQueueToList s q).pending = s.pending := by
  unfold addQueueToList
  dsimp only
  split <;> exact ⟨rfl, rfl⟩

theorem inv_createQueueEnd (h : Inv d s) (i : Nat) (mqd : Bool) (load : Option Errno) :
    Inv d (createQueueEnd d s i mqd load).1 := by
  unfold createQueueEnd
  split
  · exact h
  next q hq =>
  dsimp only
  split
  · exact inv_undoCreate h hq rfl
  · have hperm := perm_eraseIdx hq
    have hone := (hperm.map (·.process)).nodup_iff.mp h.one
    rw [map_cons, nodup_cons] at hone
    obtain ⟨hqueues, hpending⟩ := addQueueToList_lists
      { s with pending := s.pending.eraseIdx i } q
    refine h.of_perm (addQueueToList_free _ _) ?_ (by rw [hpending]; exact hone.2)
    unfold Dqm.live
    rw [hqueues, hpending]
    exact (hperm.append_right s.queues).trans perm_middle.symm

/-! ## Destroying queues -/

theorem unlinkQueue_lists (s : Dqm) (i : Nat) (q : Queue) (retval : Option Errno) :
    (unlinkQueue s i q retval).queues = s.queues.eraseIdx i ∧
      (unlinkQueue s i q retval).pending = s.pending := by
  let lists (s : Dqm) := (s.queues, s.pending)
  have hreset (s : Dqm) :
      lists (if retval = some .etime then s.setReset q.process true else s) = lists s := by
    split <;> rfl
  have hvmid (s : Dqm) :
      lists (if s.queuesList q.process = [] then
        deallocateVmid (s.setReset q.process false) q.process else s) = lists s := by
    split <;> rfl
  have hcount (s : Dqm) : lists (s.countQueue q.process (-1)) = lists s := rfl
  have hactive (s : Dqm) : lists (if q.isActive then decrementQueueCount s q else s) = lists s := by
    split <;> rfl
  have hlists : lists (unlinkQueue s i q retval) =
      lists { s with queues := s.queues.eraseIdx i } :=
    (hactive _).trans ((hcount _).trans ((hvmid _).trans (hreset _)))
  exact ⟨congrArg Prod.fst hlists, congrArg Prod.snd hlists⟩

theorem unlinkQueue_free (s : Dqm) (i : Nat) (q : Queue) (retval : Option Errno) :
    (unlinkQueue s i q retval).free =
      (releaseVmid { s with queues := s.queues.eraseIdx i } q.process).free := by
  obtain ⟨s', hs'⟩ : ∃ s' : Dqm, s' = { s with queues := s.queues.eraseIdx i } := ⟨_, rfl⟩
  have hreset : ∀ b, (if retval = some .etime then s'.setReset q.process b else s').free =
      s'.free := by
    intro b
    split
    · exact setReset_free s' q.process b
    · rfl
  have hlist : (if retval = some .etime then s'.setReset q.process true else s').queuesList
      q.process = s'.queuesList q.process := by
    split <;> rfl
  have hactive : ∀ s : Dqm, (if q.isActive then decrementQueueCount s q else s).free = s.free := by
    intro s
    split
    · exact decrementQueueCount_free s q
    · rfl
  unfold unlinkQueue
  dsimp only
  rw [← hs', hactive, countQueue_free, hlist]
  unfold releaseVmid
  split
  · rw [deallocateVmid_free, deallocateVmid_free, setReset_free, hreset]
  · exact hreset true

theorem inv_destroyQueueNocpschLocked (h : Inv d s) (hq : s.queues[i]? = some q)
    (hbusy : s.busy q.process = false) (hrun : s.schedRunning = true) (retval : Option Errno) :
    Inv d (destroyQueueNocpschLocked d s i q retval).1 := by
  unfold destroyQueueNocpschLocked
  split
  · exact h
  have hs := deallocateSlot_frame d s q
  obtain ⟨s1, hs1⟩ : ∃ s1, s1 = ({ deallocateSlot d s q with
    totalQueueCount := (deallocateSlot d s q).totalQueueCount - 1 } : Dqm) := ⟨_, rfl⟩
  have hfree1 : s1.free = (deallocateSlot d s q).free := by
    rw [hs1]
    rfl
  dsimp only
  rw [← hs1]
  have hd := deallocateDoorbell_frame d s1 q
  have hrun2 : ¬ (deallocateDoorbell d s1 q).schedRunning = false := by
    rw [hd.2.2.2, hs1]
    simp [hs.2.2.2.2, hrun]
  rw [if_neg hrun2]
  obtain ⟨s3, hs3⟩ : ∃ s3 : Dqm, s3 = { deallocateDoorbell d s1 q with
    queues := (deallocateDoorbell d s1 q).queues.eraseIdx i } := ⟨_, rfl⟩
  have hfree3 : s3.free = (deallocateDoorbell d s1 q).free := by
    rw [hs3]
    rfl
  have hqueues2 : (deallocateDoorbell d s1 q).queues = s.queues :=
    hd.2.1.trans ((by rw [hs1] : s1.queues = _).trans hs.2.2.1)
  have hpending2 : (deallocateDoorbell d s1 q).pending = s.pending :=
    hd.2.2.1.trans ((by rw [hs1] : s1.pending = _).trans hs.2.2.2.1)
  obtain ⟨hqueues, hpending⟩ := unlinkQueue_lists (deallocateDoorbell d s1 q) i q retval
  have hfree := unlinkQueue_free (deallocateDoorbell d s1 q) i q retval
  rw [← hs3] at hfree
  rw [hqueues2] at hqueues
  rw [hpending2] at hpending
  obtain ⟨u, hu⟩ : ∃ u, u = unlinkQueue (deallocateDoorbell d s1 q) i q retval := ⟨_, rfl⟩
  simp only [← hu] at hqueues hpending hfree ⊢
  have hlive : s.live.Perm (q :: u.live) := by
    unfold Dqm.live
    rw [hqueues, hpending]
    exact ((perm_eraseIdx hq).append_left s.pending).trans perm_middle
  have hv := releaseVmid_frame s3 q.process
  refine h.of_leave hlive ?_ ?_ ?_ (by rw [hpending]; exact h.one)
  · intro hslots
    have hslots := deallocateSlot_slots hslots
    rw [← hfree1] at hslots
    have hslots := hslots.of_sameButDoorbells hd
    rw [← hfree3] at hslots
    rw [hfree]
    exact hslots.of_sameButVmids hv
  · intro hdoorbells
    have hdoorbells := hdoorbells.of_sameButSlots hs
    rw [← hfree1] at hdoorbells
    have hdoorbells := deallocateDoorbell_doorbells hdoorbells
    rw [← hfree3] at hdoorbells
    rw [hfree]
    exact hdoorbells.of_sameButVmids hv
  · intro hvmids hactive
    have hvmids := hvmids.of_sameButSlots hs
    rw [← hfree1] at hvmids
    have hvmids := hvmids.of_sameButDoorbells hd
    rw [← hfree3] at hvmids
    rw [hfree]
    refine releaseVmid_vmids hvmids hactive fun x => ?_
    have hlist : s3.queuesList q.process = u.queuesList q.process := by
      rw [Dqm.queuesList, Dqm.queuesList, hqueues, hs3, hqueues2]
    rw [hlist]
    refine active_leave hlive ?_
    have hidle : u.busy q.process = false := by
      rw [Dqm.busy, hpending]
      exact hbusy
    rw [active_iff, hidle]
    simp

/-! ## Eviction -/

theorem Inv.of_map {f : Queue → Queue} (h : Inv d s) (hfree : s'.free = s.free)
    (hpending : s'.pending = s.pending) (hqueues : s'.queues = s.queues.map f)
    (hslot : ∀ q, slotKey (f q) = slotKey q) (hdoorbell : ∀ q, doorbellKey (f q) = doorbellKey q) :
    Inv d s' := by
  have hmap : ∀ {κ : Type} {key : Queue → κ}, (∀ q, key (f q) = key q) →
      s'.live.map key = s.live.map key := by
    intro κ key hkey
    have hcomp : key ∘ f = key := funext hkey
    simp [Dqm.live, hpending, hqueues, hcomp]
  have hprocess : ∀ q, (f q).process = q.process := fun q => (doorbellKey_inj (hdoorbell q)).2.1
  have hid : ∀ q, (f q).queueId = q.queueId := fun q => (doorbellKey_inj (hdoorbell q)).2.2.1
  refine ⟨h.slots.congr (by rw [hfree]) (by rw [hfree]) (by rw [hfree]) (hmap hslot),
    h.doorbells.congr (by rw [hfree]) (hmap hdoorbell), ?_, ?_, by rw [hpending]; exact h.one⟩
  · rw [hmap fun q => by rw [hprocess, hid]]
    exact h.ids
  · refine h.vmids.congr (by rw [hfree]) (by rw [hfree]) fun p => ?_
    have hin : ∀ s : Dqm, s.Active p ↔ p ∈ s.live.map (·.process) := fun s => by
      simp only [Dqm.Active, mem_map]
    rw [hin, hin, hmap hprocess]

theorem foldl_count {count : Dqm → Queue → Dqm} (hfree : ∀ s q, (count s q).free = s.free)
    (hqueues : ∀ s q, (count s q).queues = s.queues)
    (hpending : ∀ s q, (count s q).pending = s.pending) (l : List Queue) (s : Dqm) :
    (l.foldl count s).free = s.free ∧ (l.foldl count s).queues = s.queues ∧
      (l.foldl count s).pending = s.pending := by
  induction l generalizing s with
  | nil => exact ⟨rfl, rfl, rfl⟩
  | cons q l ih =>
    obtain ⟨h1, h2, h3⟩ := ih (count s q)
    exact ⟨h1.trans (hfree s q), h2.trans (hqueues s q), h3.trans (hpending s q)⟩

theorem inv_evictProcessQueuesNocpsch (h : Inv d s) (p : Nat) :
    Inv d (evictProcessQueuesNocpsch s p) := by
  unfold evictProcessQueuesNocpsch
  dsimp only
  obtain ⟨s1, hs1⟩ : ∃ s1, s1 = s.mapQpd p fun qpd => { qpd with evicted := qpd.evicted + 1 } :=
    ⟨_, rfl⟩
  have hfree1 : s1.free = s.free := by
    rw [hs1]
    apply mapQpd_free <;> exact fun _ => rfl
  have hlists1 : s1.queues = s.queues ∧ s1.pending = s.pending := by
    rw [hs1]
    exact ⟨rfl, rfl⟩
  rw [← hs1]
  split
  · exact h.of_map (f := id) hfree1 hlists1.2 (by simp [hlists1.1]) (fun _ => rfl) fun _ => rfl
  · obtain ⟨hfree, hqueues, hpending⟩ := foldl_count decrementQueueCount_free (fun _ _ => rfl)
      (fun _ _ => rfl) ((s1.queuesList p).filter (·.isActive)) s1
    refine h.of_map (hfree.trans hfree1) (hpending.trans hlists1.2)
      (congrArg _ (hqueues.trans hlists1.1)) ?_ ?_
    · intro q
      split <;> rfl
    · intro q
      split <;> rfl

theorem inv_restoreProcessQueuesNocpsch (h : Inv d s) (p : Nat) (mm : Bool) :
    Inv d (restoreProcessQueuesNocpsch s p mm) := by
  have hkeys : ∀ q : Queue, slotKey q.restored = slotKey q ∧
      doorbellKey q.restored = doorbellKey q := by
    intro q
    unfold Queue.restored
    dsimp only
    split <;> exact ⟨rfl, rfl⟩
  unfold restoreProcessQueuesNocpsch
  split
  · exact h
  split
  · refine h.of_map (f := id) ?_ rfl (by rw [map_id]; rfl) (fun _ => rfl) fun _ => rfl
    apply mapQpd_free <;> exact fun _ => rfl
  split
  · exact h
  · dsimp only
    obtain ⟨hfree, hqueues, hpending⟩ := foldl_count incrementQueueCount_free (fun _ _ => rfl)
      (fun _ _ => rfl) ((s.queuesList p).filter fun q =>
        QueueManager.queueIsActive { q.toQueue with isEvicted := false }) s
    refine h.of_map (Eq.trans ?_ hfree) hpending (congrArg _ hqueues) ?_ ?_
    · rw [mapQpd_free] <;> intros <;> rfl
    · intro q
      split
      · exact (hkeys q).1
      · rfl
    · intro q
      split
      · exact (hkeys q).2
      · rfl

/-! ## Distinct doorbells -/

theorem sdmaDoorbell_bound {engine queue : Nat} (he : engine < d.sdmaEngines + d.xgmiEngines)
    (hq : queue < d.queuesPerEngine) :
    d.nonCpStart ≤ d.sdmaDoorbellIdx (d.nodeId * (d.sdmaEngines + d.xgmiEngines) + engine) ∧
    d.sdmaDoorbellIdx (d.nodeId * (d.sdmaEngines + d.xgmiEngines) + engine) + queue / 2 ≤
      d.nonCpEnd := by
  obtain ⟨hstart, hend⟩ := d.reserved engine he
  dsimp only at hstart hend
  exact ⟨hstart, by omega⟩

theorem sdmaDoorbell_mem_reserved (hsoc : d.soc15 = true) {engine queue : Nat}
    (he : engine < d.sdmaEngines + d.xgmiEngines) (hq : queue < d.queuesPerEngine) :
    d.sdmaDoorbell engine queue ∈ d.reservedDoorbells := by
  obtain ⟨hstart, hend⟩ := sdmaDoorbell_bound he hq
  have hlt := d.reserved_lt
  unfold Device.reservedDoorbells Device.sdmaDoorbell
  rw [if_pos hsoc, Finset.mem_filter, Finset.mem_range]
  unfold doorbellMirrorOffset maxQueuesPerProcess at *
  omega

theorem sdmaDoorbell_inj {engine engine' queue queue' : Nat}
    (he : engine < d.sdmaEngines + d.xgmiEngines) (hq : queue < d.queuesPerEngine)
    (he' : engine' < d.sdmaEngines + d.xgmiEngines) (hq' : queue' < d.queuesPerEngine)
    (h : d.sdmaDoorbell engine queue = d.sdmaDoorbell engine' queue') :
    engine = engine' ∧ queue = queue' := by
  obtain ⟨-, hend⟩ := sdmaDoorbell_bound he hq
  obtain ⟨-, hend'⟩ := sdmaDoorbell_bound he' hq'
  have hlt := d.reserved_lt
  unfold Device.sdmaDoorbell at h
  -- the doorbell modulo the mirror offset has the engine, the rest the parity of the queue
  have hmirror : ∀ x y a b z w : Nat, x + z < doorbellMirrorOffset → y + w < doorbellMirrorOffset →
      x + a * doorbellMirrorOffset + z = y + b * doorbellMirrorOffset + w →
      x + z = y + w ∧ a = b := by
    unfold doorbellMirrorOffset
    omega
  obtain ⟨hlow, hparity⟩ := hmirror _ _ _ _ _ _ (hend.trans_lt hlt) (hend'.trans_lt hlt) h
  rcases lt_trichotomy engine engine' with hlt' | rfl | hlt'
  · have hspaced := d.spaced engine' he' engine hlt'
    dsimp only at hspaced
    omega
  · exact ⟨rfl, by omega⟩
  · have hspaced := d.spaced engine he engine' hlt'
    dsimp only at hspaced
    omega

theorem divMod_lt {engines queues id : Nat} (h : id < engines * queues) :
    id % engines < engines ∧ id / engines < queues := by
  have hpos : 0 < engines := Nat.pos_of_mul_pos_right (Nat.zero_lt_of_lt h)
  exact ⟨Nat.mod_lt _ hpos, Nat.div_lt_of_lt_mul h⟩

/-- The id of an SDMA queue is that of a queue of its engine. -/
theorem sdma_place (h : Slots d s.free l) (hq : q ∈ l) (hsdma : isSdma q.type = true) :
    q.sdmaQueueId < d.queuesPerEngine ∧
      (q.type = .sdma ∧ q.sdmaEngineId < d.sdmaEngines ∧
          q.sdmaId = q.sdmaEngineId + d.sdmaEngines * q.sdmaQueueId ∨
        q.type = .sdmaXgmi ∧ d.sdmaEngines ≤ q.sdmaEngineId ∧
          q.sdmaEngineId < d.sdmaEngines + d.xgmiEngines ∧
          q.sdmaId = q.sdmaEngineId - d.sdmaEngines + d.xgmiEngines * q.sdmaQueueId) := by
  obtain ⟨hsdmaOk, hxgmiOk⟩ := h.engines q hq
  rcases (by simpa [isSdma] using hsdma : q.type = .sdma ∨ q.type = .sdmaXgmi) with htype | htype
  · have hall := (h.sdma.not_free hq (sdmaOf_eq htype)).1
    have hlt := divMod_lt (Finset.mem_range.mp (Finset.mem_sdiff.mp hall).1)
    obtain ⟨hengine, hqueue⟩ := hsdmaOk htype
    refine ⟨by omega, .inl ⟨htype, by omega, ?_⟩⟩
    rw [hengine, hqueue, Nat.mod_add_div]
  · have hall := (h.xgmi.not_free hq (sdmaOf_eq htype)).1
    have hlt := divMod_lt (Finset.mem_range.mp hall)
    obtain ⟨hengine, hqueue⟩ := hxgmiOk htype
    refine ⟨by omega, .inr ⟨htype, by omega, by omega, ?_⟩⟩
    rw [hengine, hqueue, Nat.add_sub_cancel_left, Nat.mod_add_div]

theorem sdma_bound (h : Slots d s.free l) (hq : q ∈ l) (hsdma : isSdma q.type = true) :
    q.sdmaEngineId < d.sdmaEngines + d.xgmiEngines ∧ q.sdmaQueueId < d.queuesPerEngine := by
  obtain ⟨hqueue, ⟨-, hlt, -⟩ | ⟨-, -, hlt, -⟩⟩ := sdma_place h hq hsdma
  · exact ⟨by omega, hqueue⟩
  · exact ⟨hlt, hqueue⟩

theorem sdma_inj (h : Slots d s.free l) (hq : q ∈ l) (hq' : q' ∈ l)
    (hsdma : isSdma q.type = true) (hsdma' : isSdma q'.type = true)
    (hengine : q.sdmaEngineId = q'.sdmaEngineId) (hqueue : q.sdmaQueueId = q'.sdmaQueueId) :
    q.type = q'.type ∧ q.sdmaId = q'.sdmaId := by
  rcases (sdma_place h hq hsdma).2 with ⟨htype, hlt, heq⟩ | ⟨htype, hle, -, heq⟩ <;>
    rcases (sdma_place h hq' hsdma').2 with ⟨htype', hlt', heq'⟩ | ⟨htype', hle', -, heq'⟩
  · exact ⟨by rw [htype, htype'], by rw [heq, heq', hengine, hqueue]⟩
  · omega
  · omega
  · exact ⟨by rw [htype, htype'], by rw [heq, heq', hengine, hqueue]⟩

theorem doorbells_distinct (h : Inv d s) :
    s.live.Pairwise fun x y => x.process = y.process → x.doorbellId ≠ y.doorbellId := by
  have hids : s.live.Pairwise fun x y => (x.process, x.queueId) ≠ (y.process, y.queueId) :=
    pairwise_map.mp h.ids
  have hsdma := h.slots.sdma.pairwise.and h.slots.xgmi.pairwise
  refine ((hids.and h.doorbells.cp.pairwise).and hsdma).imp_of_mem ?_
  rintro x y hx hy ⟨⟨hid, hcp⟩, hsdma, hxgmi⟩ hprocess heq
  obtain ⟨hprex, hstaticx⟩ := h.doorbells.fixed x hx
  obtain ⟨hprey, hstaticy⟩ := h.doorbells.fixed y hy
  cases hsoc : d.soc15 with
  | false =>
    rw [hprex hsoc, hprey hsoc] at heq
    exact hid (by rw [hprocess, heq])
  | true =>
    have hfree : ∀ q ∈ s.live, isSdma q.type = false → q.doorbellId ∉ d.reservedDoorbells :=
      fun q hq hsdma => (h.doorbells.cp.not_free hq (if_pos ⟨hsoc, hsdma⟩)).1.2.2
    have hstatic : ∀ q ∈ s.live, isSdma q.type = true → q.doorbellId ∈ d.reservedDoorbells := by
      intro q hq hsdma
      rw [(h.doorbells.fixed q hq).2 hsoc hsdma]
      obtain ⟨hengine, hqueue⟩ := sdma_bound h.slots hq hsdma
      exact sdmaDoorbell_mem_reserved hsoc hengine hqueue
    cases htx : isSdma x.type with
    | false =>
      cases hty : isSdma y.type with
      | false =>
        refine hcp (x.process, x.doorbellId) (by simp [cpDoorbellOf, hsoc, htx]) ?_
        rw [hprocess, heq]
        simp [cpDoorbellOf, hsoc, hty]
      | true => exact hfree x hx htx (heq ▸ hstatic y hy hty)
    | true =>
      cases hty : isSdma y.type with
      | false => exact hfree y hy hty (heq ▸ hstatic x hx htx)
      | true =>
        rw [hstaticx hsoc htx, hstaticy hsoc hty] at heq
        obtain ⟨hengx, hqx⟩ := sdma_bound h.slots hx htx
        obtain ⟨hengy, hqy⟩ := sdma_bound h.slots hy hty
        obtain ⟨hengine, hqueue⟩ := sdmaDoorbell_inj hengx hqx hengy hqy heq
        obtain ⟨htype, hsame⟩ := sdma_inj h.slots hx hy htx hty hengine hqueue
        rcases (by simpa [isSdma] using htx : x.type = .sdma ∨ x.type = .sdmaXgmi) with ht | ht
        · exact hsdma x.sdmaId (sdmaOf_eq ht) (hsame ▸ sdmaOf_eq (htype ▸ ht))
        · exact hxgmi x.sdmaId (sdmaOf_eq ht) (hsame ▸ sdmaOf_eq (htype ▸ ht))

end

/-! ## Runs -/

theorem CreateArgs.InRange.of_not_restore {d : Device} {a : CreateArgs} (h : a.restore = none) :
    a.InRange d := by
  simp [InRange, h]

/-- The condition of a step. The ids that a creation restores are within their bitmaps,
and its queue id is new, as the slots of the process see to. A queue is destroyed only
while the scheduler runs. -/
def Op.Ok (d : Device) (s : Dqm) : Op → Prop
  | .createBegin a =>
    a.InRange d ∧ ∀ q ∈ s.live, q.process = a.process → q.queueId ≠ a.queueId
  | .destroy i _ => i < s.queues.length → s.schedRunning = true
  | .terminate p _ => s.queuesList p ≠ [] → s.schedRunning = true
  | _ => True

/-- Every resource has at most one owner, and the free sets are the complements. -/
structure Owned (d : Device) (s : Dqm) : Prop where
  hqd : s.live.Pairwise fun x y => x.type = .compute → y.type = .compute →
    (x.pipe, x.queue) ≠ (y.pipe, y.queue)
  sdma : s.live.Pairwise fun x y => isSdma x.type = true → x.type = y.type → x.sdmaId ≠ y.sdmaId
  doorbell : s.live.Pairwise fun x y => x.process = y.process → x.doorbellId ≠ y.doorbellId
  vmid : ∀ p p', s.Active p → s.Active p' → (s.qpd p).vmid = (s.qpd p').vmid → p = p'
  hqdHeld : ∀ q ∈ s.live, q.type = .compute → q.queue ∈ d.pipeQueues q.pipe
  sdmaHeld : ∀ q ∈ s.live, (q.type = .sdma → q.sdmaId ∈ d.allSdma) ∧
    (q.type = .sdmaXgmi → q.sdmaId ∈ d.allXgmi)
  vmidHeld : ∀ p, s.Active p → d.firstVmid ≤ (s.qpd p).vmid ∧ (s.qpd p).vmid ≤ d.lastVmid ∧
    s.vmidPasid (s.qpd p).vmid = d.pasid p
  hqdFree : ∀ pipe bit, bit ∈ s.allocatedQueues pipe ↔ bit ∈ d.pipeQueues pipe ∧
    ∀ q ∈ s.live, q.type = .compute → (q.pipe, q.queue) ≠ (pipe, bit)
  sdmaFree : ∀ id, id ∈ s.sdmaBitmap ↔ id ∈ d.allSdma ∧ ∀ q ∈ s.live, q.type = .sdma → q.sdmaId ≠ id
  xgmiFree : ∀ id, id ∈ s.xgmiSdmaBitmap ↔ id ∈ d.allXgmi ∧
    ∀ q ∈ s.live, q.type = .sdmaXgmi → q.sdmaId ≠ id
  doorbellFree : d.soc15 = true → ∀ p id, id < maxQueuesPerProcess →
    (id ∉ (s.qpd p).doorbellBitmap ↔ id ∉ d.reservedDoorbells ∧
      ∀ q ∈ s.live, isSdma q.type = false → (q.process, q.doorbellId) ≠ (p, id))
  vmidFree : ∀ v, d.firstVmid ≤ v → v ≤ d.lastVmid →
    (s.vmidPasid v = 0 ↔ ∀ p, s.Active p → (s.qpd p).vmid ≠ v)

/-- What is not held, for a resource that some queues hold. -/
theorem Exclusive.free_iff {α : Type} {all free : Set α} {holds : Queue → Option α}
    {l : List Queue} (h : Exclusive all free holds l) (a : α) :
    a ∈ free ↔ a ∈ all ∧ ∀ q ∈ l, holds q ≠ some a := by
  rw [h.rest, mem_filterMap]
  simp only [not_exists, not_and, ne_eq]

variable {d : Device} {s : Dqm}

theorem Inv.owned (h : Inv d s) : Owned d s where
  hqd := h.slots.hqd.pairwise.imp fun hne hx hy heq =>
    hne _ (if_pos hx) (by rw [hqdOf, if_pos hy, heq])
  sdma := by
    refine (h.slots.sdma.pairwise.and h.slots.xgmi.pairwise).imp ?_
    rintro x y ⟨hsdma, hxgmi⟩ htype hsame heq
    rcases (by simpa [isSdma] using htype : x.type = .sdma ∨ x.type = .sdmaXgmi) with ht | ht
    · exact hsdma _ (sdmaOf_eq ht) (heq ▸ sdmaOf_eq (hsame ▸ ht))
    · exact hxgmi _ (sdmaOf_eq ht) (heq ▸ sdmaOf_eq (hsame ▸ ht))
  doorbell := doorbells_distinct h
  vmid := h.vmids.distinct
  hqdHeld q hq htype := (h.slots.hqd.not_free hq (if_pos htype)).1
  sdmaHeld q hq :=
    ⟨fun htype => (h.slots.sdma.not_free hq (sdmaOf_eq htype)).1,
      fun htype => (h.slots.xgmi.not_free hq (sdmaOf_eq htype)).1⟩
  vmidHeld := h.vmids.owns
  hqdFree pipe bit := by
    have hiff := Exclusive.free_iff h.slots.hqd (pipe, bit)
    simpa [hqdOf, Device.allHqds, Dqm.free] using hiff
  sdmaFree id := by
    have hiff := Exclusive.free_iff h.slots.sdma id
    simpa [sdmaOf, Dqm.free] using hiff
  xgmiFree id := by
    have hiff := Exclusive.free_iff h.slots.xgmi id
    simpa [sdmaOf, Dqm.free] using hiff
  doorbellFree hsoc p id hid := by
    have hiff := Exclusive.free_iff h.doorbells.cp (p, id)
    simpa [cpDoorbellOf, Device.allDoorbells, Free.freeDoorbells, Dqm.free, hsoc, hid] using hiff
  vmidFree v hfirst hlast := by
    constructor
    · rintro hzero p hp rfl
      exact d.pasid_ne p ((h.vmids.owns p hp).2.2.symm.trans hzero)
    · intro hnone
      by_contra hused
      obtain ⟨p, hp, hv⟩ := h.vmids.used v hfirst hlast hused
      exact hnone p hp hv

theorem inv_init (d : Device) : Inv d d.init where
  slots := ⟨Exclusive.nil, Exclusive.nil, Exclusive.nil, by simp [Dqm.live, Device.init]⟩
  doorbells := ⟨Exclusive.nil, by simp [Dqm.live, Device.init]⟩
  ids := nodup_nil
  vmids := by
    constructor <;> simp [Dqm.Active, Dqm.live, Device.init, Dqm.free]
  one := nodup_nil

theorem inv_destroyQueueNocpsch (h : Inv d s) {i : Nat}
    (hrun : i < s.queues.length → s.schedRunning = true) (retval : Option Errno) :
    Inv d (destroyQueueNocpsch d s i retval) := by
  unfold destroyQueueNocpsch
  split
  · exact h
  next q hq =>
  split
  · exact h
  next hbusy =>
  exact inv_destroyQueueNocpschLocked h hq (by simpa using hbusy)
    (hrun (List.getElem?_eq_some_iff.mp hq).1) retval

theorem inv_step (s : Dqm) (op : Op) (h : Inv d s) (hok : op.Ok d s) : Inv d (step d s op) := by
  cases op with
  | createBegin a =>
    simp only [step]
    split
    · exact h
    next hbusy => exact inv_createQueueBegin h (by simpa using hbusy) hok.1 hok.2
  | createEnd i mqd load => exact inv_createQueueEnd h i mqd load
  | destroy i retval => exact inv_destroyQueueNocpsch h hok retval
  | terminate p retval =>
    simp only [step, terminateOne]
    split
    · exact h
    next i hi =>
    refine inv_destroyQueueNocpsch h (fun _ => hok ?_) retval
    obtain ⟨hlt, hp⟩ := findIdx?_eq_some_iff_getElem.mp hi
    have hin : s.queues.get ⟨i, hlt⟩ ∈ s.queuesList p :=
      mem_filter.mpr ⟨get_mem s.queues ⟨i, hlt⟩, hp.1⟩
    exact ne_nil_of_mem hin
  | evict p => exact inv_evictProcessQueuesNocpsch h p
  | restore p mm => exact inv_restoreProcessQueuesNocpsch h p mm
  | stop => exact h.of_perm rfl (Perm.refl _) h.one
  | start ok =>
    simp only [step]
    split
    · exact h.of_perm rfl (Perm.refl _) h.one
    · exact h

/-- A creation that fails leaves the free sets as they were, whichever of its parts
fails. -/
def FailureRestores (d : Device) (s : Dqm) (a : CreateArgs) : Prop :=
  ((createQueueBegin d s a).2 ≠ none → (createQueueBegin d s a).1.free = s.free) ∧
  ∀ mqd load, (createQueueBegin d s a).2 = none →
    (createQueueEnd d (createQueueBegin d s a).1 0 mqd load).2 ≠ none →
    (createQueueEnd d (createQueueBegin d s a).1 0 mqd load).1.free = s.free

theorem failureRestores (h : Inv d s) {a : CreateArgs} (hbusy : s.busy a.process = false)
    (ha : a.InRange d) : FailureRestores d s a := by
  rcases createQueueBegin_cases h hbusy ha with ⟨s', e, heq, hfree, -⟩ |
    ⟨s', q, heq, -, -, -, -, -, -, hundo⟩
  · exact ⟨fun _ => by rw [heq]; exact hfree, fun _ _ hnone => by simp [heq] at hnone⟩
  · refine ⟨fun hne => absurd (by rw [heq]) hne, fun mqd load _ hne => ?_⟩
    rw [heq] at hne ⊢
    simp only [createQueueEnd, getElem?_cons_zero] at hne ⊢
    split
    · exact hundo _
    · next hnone =>
      simp only [hnone] at hne
      exact absurd rfl hne

/-- Hardware resources are owned exclusively. In every run from the initial state whose
steps meet their conditions, every live queue owns its HQD slot or SDMA queue and its
doorbell alone, every process with live queues owns its VMID alone, the free sets are
what nobody owns, and a creation that fails leaves the free sets as they were. -/
theorem resources_owned (d : Device) {ops : List Op} (hok : StepsOk (step d) (Op.Ok d) d.init ops) :
    Owned d (run (step d) d.init ops) ∧
    ∀ a : CreateArgs, (run (step d) d.init ops).busy a.process = false → a.InRange d →
      FailureRestores d (run (step d) d.init ops) a := by
  have hinv : Inv d (run (step d) d.init ops) := run_inv_of_stepsOk inv_step (inv_init d) hok
  exact ⟨hinv.owned, fun a hbusy ha => failureRestores hinv hbusy ha⟩

def exDevice : Device :=
  { pipes := 1, queuesPerPipe := 1, cpQueueBitmap := {0}, firstVmid := 8, lastVmid := 9
    sdmaEngines := 0, xgmiEngines := 0, queuesPerEngine := 2, reservedSdma := ∅, soc15 := false
    nodeId := 0, sdmaDoorbellIdx := fun _ => 0, nonCpStart := 0, nonCpEnd := 0, maxQueues := 4
    pasid := fun p => p + 1
    queuesPerPipe_le := by decide
    sdma_le := by decide
    xgmi_le := by decide
    pasid_ne := fun p => Nat.succ_ne_zero p
    spaced := fun e he => absurd he (Nat.not_lt_zero e)
    reserved := fun e he => absurd he (Nat.not_lt_zero e)
    reserved_lt := by decide }

def exCreate : CreateArgs :=
  { props :=
      { type := .compute, queueSize := 1, queueAddress := 1, queuePercent := 1, isActive := false
        isEvicted := false, isSuspended := false, isBeingDestroyed := false, isNew := true
        isGws := false, gws := false }
    process := 0, queueId := 0, restore := none, straySdma := false, strayDoorbell := false }

/-- A SOC15 device with one SDMA engine. -/
def exSdma : Device :=
  { exDevice with
    sdmaEngines := 1, soc15 := true
    sdma_le := by decide
    spaced := by decide
    reserved := by decide }

def exSdmaCreate : CreateArgs :=
  { exCreate with props := { exCreate.props with type := .sdma }, queueId := 1 }

/-- One process gets an SDMA queue and a compute queue. -/
def exQueues : List Op :=
  [.start true, .createBegin exSdmaCreate, .createEnd 0 true none, .createBegin exCreate,
    .createEnd 0 true none]

theorem resources_owned_exCreate :
    Owned exSdma (run (step exSdma) exSdma.init exQueues) ∧
      (run (step exSdma) exSdma.init exQueues).live.map (·.type) = [.compute, .sdma] := by
  have hok : StepsOk (step exSdma) (Op.Ok exSdma) exSdma.init exQueues := by
    refine ⟨trivial, ⟨.of_not_restore rfl, fun q hq => absurd hq not_mem_nil⟩, trivial,
      ⟨.of_not_restore rfl, by decide⟩, trivial, trivial⟩
  exact ⟨(resources_owned exSdma hok).1, by decide +kernel⟩

/-- A queue that is destroyed while the scheduler is stopped stays on the list of its
process, but its HQD slot is free. -/
theorem resources_owned_broken :
    ¬ Owned exDevice (run (step exDevice) exDevice.init
      [.start true, .createBegin exCreate, .createEnd 0 true none, .stop, .destroy 0 none]) := by
  intro h
  have hfree := ((h.hqdFree 0 0).mp (by decide)).2
  have hlive : ∃ q ∈ (run (step exDevice) exDevice.init
      [.start true, .createBegin exCreate, .createEnd 0 true none, .stop, .destroy 0 none]).live,
      q.type = .compute ∧ (q.pipe, q.queue) = (0, 0) := by decide
  obtain ⟨q, hq, htype, hslot⟩ := hlive
  exact hfree q hq htype hslot

end Amdkfd.NoHws

import Amdkfd.Basic
import Amdkfd.Lib.Bitmap
import Amdkfd.Lib.Run

/-!
# Queue slots of a process

`pqm_create_queue` and `pqm_destroy_queue` of `kfd_process_queue_manager.c`: each queue
of a process has a slot, whose number is its id, on whichever device it is. A process
registers with the queue manager of a device at its first queue there. What the queue
manager answers is part of the arguments of a call.
-/

namespace Amdkfd.QueueSlots

open Lib List Option

def maxQueuesPerProcess : Nat := 1024

inductive QueueType
  | compute
  | sdma
  | sdmaXgmi
  | diq
  | hiq
  deriving DecidableEq

/-- `struct kfd_process_device` with its `qpd`, and what is read of the device.
`queues` are the processes on `dqm->queues`; the two lists have the ids of the queues
on them. -/
structure Pdd where
  enableMes : Bool
  isGfx943 : Bool
  maxNoOfHqd : Nat
  queues : List Nat
  procCtx : Bool
  isDebug : Bool
  queueCount : Nat
  queuesList : List Nat
  privQueueList : List Nat
  deriving DecidableEq

/-- `struct process_queue_node`. `kernel` tells a kernel queue from a user queue. -/
structure Pqn where
  qid : Nat
  dev : Nat
  kernel : Bool
  deriving DecidableEq

/-- `struct process_queue_manager` of the process `pid`, with its devices. The bitmap is
gone after `pqm_uninit`. -/
structure Pqm where
  pid : Nat
  pdds : List Pdd
  queueSlotBitmap : Option Bitmap
  queues : List Pqn

def pqmInit (pid : Nat) (pdds : List Pdd) : Pqm :=
  { pid := pid, pdds := pdds, queueSlotBitmap := some ∅, queues := [] }

/-! ## Slots -/

def assignQueueSlotByQid (map : Bitmap) (qid : Nat) : Except Errno (Bitmap × Nat) :=
  if maxQueuesPerProcess ≤ qid then .error .einval
  else if qid ∈ map then .error .enospc
  else .ok (insert qid map, qid)

def findAvailableQueueSlot (map : Bitmap) : Except Errno (Bitmap × Nat) :=
  let found := findNextZeroBit map maxQueuesPerProcess 0
  if maxQueuesPerProcess ≤ found then .error .enomem
  else .ok (insert found map, found)

/-! ## Registration -/

def registerProcess (kzalloc : Bool) (pid : Nat) (pdd : Pdd) : Pdd :=
  if kzalloc then { pdd with queues := pid :: pdd.queues } else pdd

def unregisterProcess (pid : Nat) (pdd : Pdd) : Pdd :=
  { pdd with queues := pdd.queues.erase pid }

def Pdd.noQueues (pdd : Pdd) : Bool :=
  pdd.queuesList.isEmpty && pdd.privQueueList.isEmpty

/-! ## Creation -/

/-- The arguments of `pqm_create_queue` and the results of what it calls, in the order of
the calls. `qData` is the id of a checkpoint. -/
structure CreateArgs where
  dev : Nat
  type : QueueType
  qData : Option Nat
  registerNode : Bool
  procCtx : Option Errno
  pqn : Bool
  overSubscription : Bool
  initUserQueue : Option Errno
  kernelQueueInit : Bool
  drainInterrupts : Option Errno
  createQueue : Option Errno

/-- The limit of `pqm_create_queue`. -/
def maxQueues (pdd : Pdd) (type : QueueType) : Nat :=
  if pdd.isDebug ∨ type = .diq then pdd.maxNoOfHqd / 2
  else if pdd.isGfx943 then 255 else 127

def takeSlot (map : Bitmap) (c : CreateArgs) : Except Errno (Bitmap × Nat) :=
  match c.qData with
  | some qid => assignQueueSlotByQid map qid
  | none => findAvailableQueueSlot map

def CreateArgs.procCtxFails (c : CreateArgs) (pdd : Pdd) : Option Errno :=
  if pdd.procCtx = false ∧ pdd.enableMes then c.procCtx else none

/-- The error of the steps from the allocation of the node on. -/
def CreateArgs.laterError (c : CreateArgs) : Option Errno :=
  if c.pqn = false then some .enomem
  else
    match c.type with
    | .sdma => c.initUserQueue.or c.createQueue
    | .sdmaXgmi => c.initUserQueue.or c.createQueue
    | .compute =>
      if c.overSubscription then some .eperm else c.initUserQueue.or c.createQueue
    | .diq =>
      if c.kernelQueueInit = false then some .enomem else c.drainInterrupts.or c.createQueue
    | .hiq => some .einval

/-- The queue is put on the list of its kind by the queue manager. -/
def Pdd.addQueue (pdd : Pdd) (type : QueueType) (qid : Nat) : Pdd :=
  if type = .diq then { pdd with privQueueList := qid :: pdd.privQueueList, isDebug := true }
  else { pdd with queuesList := qid :: pdd.queuesList, queueCount := pdd.queueCount + 1 }

def Pdd.registerFirst (pdd : Pdd) (pid : Nat) (c : CreateArgs) : Pdd :=
  if pdd.noQueues then registerProcess c.registerNode pid pdd else pdd

/-- `pqm_create_queue`. There is no call after `pqm_uninit`. The queue managers leave
their lists as they were when the creation of the queue fails. -/
def pqmCreateQueue (s : Pqm) (c : CreateArgs) : Pqm × Except Errno Nat :=
  match s.queueSlotBitmap, s.pdds[c.dev]? with
  | some map, some pdd =>
    if maxQueues pdd c.type ≤ pdd.queueCount then (s, .error .enospc)
    else
      match takeSlot map c with
      | .error e => (s, .error e)
      | .ok (map', qid) =>
        let pdd := pdd.registerFirst s.pid c
        match c.procCtxFails pdd with
        | some e =>
          -- the early return
          ({ s with pdds := s.pdds.set c.dev pdd, queueSlotBitmap := some map' }, .error e)
        | none =>
          let pdd := { pdd with procCtx := pdd.procCtx || pdd.enableMes }
          match c.laterError with
          | some e =>
            let pdd := if pdd.noQueues then unregisterProcess s.pid pdd else pdd
            ({ s with pdds := s.pdds.set c.dev pdd, queueSlotBitmap := some (map'.erase qid) },
              .error e)
          | none =>
            ({ s with
                pdds := s.pdds.set c.dev (pdd.addQueue c.type qid)
                queueSlotBitmap := some map'
                queues := ⟨qid, c.dev, c.type = .diq⟩ :: s.queues }, .ok qid)
  | _, _ => (s, .error .eperm)

/-! ## Destruction -/

/-- The result of `destroy_queue` of the queue manager, and whether it has taken the queue
off its list. -/
structure DestroyArgs where
  result : Option Errno
  removed : Bool

def Pdd.destroyQueue (pdd : Pdd) (pqn : Pqn) (d : DestroyArgs) : Pdd × Option Errno :=
  if pqn.kernel then
    ({ pdd with privQueueList := pdd.privQueueList.erase pqn.qid, isDebug := false }, none)
  else if d.removed then
    ({ pdd with
        queuesList := pdd.queuesList.erase pqn.qid
        queueCount := pdd.queueCount - 1 }, d.result)
  else (pdd, d.result)

def pqmDestroyQueue (s : Pqm) (qid : Nat) (d : DestroyArgs) : Pqm × Option Errno :=
  match s.queues.find? (·.qid = qid) with
  | none => (s, some .einval)
  | some pqn =>
    match s.pdds[pqn.dev]? with
    | none => (s, some .eperm)
    | some pdd =>
      let r := pdd.destroyQueue pqn d
      if r.2 ≠ none ∧ r.2 ≠ some .etime ∧ r.2 ≠ some .eio then
        ({ s with pdds := s.pdds.set pqn.dev r.1 }, r.2)
      else
        let pdd := if r.1.noQueues then unregisterProcess s.pid r.1 else r.1
        ({ s with
            pdds := s.pdds.set pqn.dev pdd
            queues := s.queues.eraseP (·.qid = qid)
            queueSlotBitmap := s.queueSlotBitmap.map (·.erase qid) }, r.2)

def pqmUninit (s : Pqm) : Pqm :=
  { s with queues := [], queueSlotBitmap := none }

/-! ## Runs -/

inductive Op
  | create (c : CreateArgs)
  | destroy (qid : Nat) (d : DestroyArgs)
  | uninit
  /-- Anything else that happens to the process on a device, or to the device. -/
  | device (dev : Nat) (pdd : Pdd)

def step (s : Pqm) : Op → Pqm
  | .create c => (pqmCreateQueue s c).1
  | .destroy qid d => (pqmDestroyQueue s qid d).1
  | .uninit => pqmUninit s
  | .device dev pdd => { s with pdds := s.pdds.set dev pdd }

/-- The device and the slot with which a creation gets past its checks. -/
def CreateArgs.starts (c : CreateArgs) (s : Pqm) : Option (Pdd × Bitmap × Nat) :=
  match s.queueSlotBitmap, s.pdds[c.dev]? with
  | some map, some pdd =>
    if maxQueues pdd c.type ≤ pdd.queueCount then none
    else
      match takeSlot map c with
      | .error _ => none
      | .ok (map', qid) => some (pdd, map', qid)
  | _, _ => none

/-- The condition on a creation: it does not fail at the context of the process, and when
it fails later, it has registered the process if it was its first queue, or the process
is not registered. -/
def CreateArgs.Ok (c : CreateArgs) (s : Pqm) : Prop :=
  ∀ pdd map' qid, c.starts s = some (pdd, map', qid) →
    c.procCtxFails pdd = none ∧
      (c.laterError ≠ none → pdd.noQueues = true → c.registerNode = true ∨ s.pid ∉ pdd.queues)

def Pqm.registered (s : Pqm) : List (List Nat) :=
  s.pdds.map (·.queues)

/-- A creation that fails leaves the slots, the queues and the registrations as they
were. -/
def CreateArgs.Keeps (c : CreateArgs) (s : Pqm) : Prop :=
  ∀ e, (pqmCreateQueue s c).2 = .error e →
    (pqmCreateQueue s c).1.queueSlotBitmap = s.queueSlotBitmap ∧
      (pqmCreateQueue s c).1.queues = s.queues ∧
      (pqmCreateQueue s c).1.registered = s.registered

/-- The slots that are taken are those of the queues on the list, each once, and they are
below the limit. -/
structure SlotsOk (s : Pqm) : Prop where
  taken : ∀ map, s.queueSlotBitmap = some map → ∀ qid, qid ∈ map ↔ ∃ pqn ∈ s.queues, pqn.qid = qid
  distinct : (s.queues.map (·.qid)).Nodup
  bound : ∀ pqn ∈ s.queues, pqn.qid < maxQueuesPerProcess
  gone : s.queueSlotBitmap = none → s.queues = []

section Create
variable {s : Pqm} {c : CreateArgs} {pdd : Pdd} {map map' : Bitmap} {qid : Nat}

theorem takeSlot_ok (h : takeSlot map c = .ok (map', qid)) :
    qid ∉ map ∧ qid < maxQueuesPerProcess ∧ map' = insert qid map := by
  unfold takeSlot at h
  split at h
  · next q =>
    unfold assignQueueSlotByQid at h
    split at h
    · cases h
    · next hlt =>
      split at h
      · cases h
      · next hfree =>
        cases h
        exact ⟨hfree, not_le.mp hlt, rfl⟩
  · unfold findAvailableQueueSlot at h
    dsimp only at h
    split at h
    · cases h
    · next hlt =>
      cases h
      exact ⟨findNextZeroBit_clear (not_le.mp hlt), not_le.mp hlt, rfl⟩

theorem createQueue_of_none (h : c.starts s = none) : ∃ e, pqmCreateQueue s c = (s, .error e) := by
  unfold CreateArgs.starts at h
  unfold pqmCreateQueue
  cases hmap : s.queueSlotBitmap with
  | none => exact ⟨_, rfl⟩
  | some map =>
    cases hpdd : s.pdds[c.dev]? with
    | none => exact ⟨_, rfl⟩
    | some pdd =>
      rw [hmap, hpdd] at h
      dsimp only at h ⊢
      split at h
      · next hfull => exact ⟨_, if_pos hfull⟩
      · next hroom =>
        rw [if_neg hroom]
        split at h
        · next e hslot => exact ⟨e, rfl⟩
        · cases h

theorem starts_some (h : c.starts s = some (pdd, map', qid)) :
    ∃ map, s.queueSlotBitmap = some map ∧ s.pdds[c.dev]? = some pdd ∧
      maxQueues pdd c.type > pdd.queueCount ∧ takeSlot map c = .ok (map', qid) := by
  unfold CreateArgs.starts at h
  split at h
  · next map pdd hmap hpdd =>
    split at h
    · cases h
    · next hroom =>
      split at h
      · cases h
      · next hslot =>
        cases h
        exact ⟨map, hmap, hpdd, not_le.mp hroom, hslot⟩
  · cases h

theorem registerFirst_procCtxFails (pid : Nat) :
    c.procCtxFails (pdd.registerFirst pid c) = c.procCtxFails pdd := by
  unfold Pdd.registerFirst registerProcess
  split
  · split
    · rfl
    · rfl
  · rfl

theorem registerFirst_noQueues (pid : Nat) : (pdd.registerFirst pid c).noQueues = pdd.noQueues := by
  unfold Pdd.registerFirst registerProcess
  split
  · split
    · rfl
    · rfl
  · rfl

/-- The device after a creation that fails after the context. -/
def Pdd.undone (pdd : Pdd) (pid : Nat) (c : CreateArgs) : Pdd :=
  let pdd := pdd.registerFirst pid c
  let pdd := { pdd with procCtx := pdd.procCtx || pdd.enableMes }
  if pdd.noQueues then unregisterProcess pid pdd else pdd

theorem createQueue_cases (s : Pqm) (c : CreateArgs) :
    (c.starts s = none ∧ ∃ e, pqmCreateQueue s c = (s, .error e)) ∨
    ∃ pdd map map' qid, c.starts s = some (pdd, map', qid) ∧ s.queueSlotBitmap = some map ∧
      s.pdds[c.dev]? = some pdd ∧ qid ∉ map ∧ qid < maxQueuesPerProcess ∧ map' = insert qid map ∧
      ((∃ e, c.procCtxFails pdd = some e ∧ pqmCreateQueue s c =
        ({ s with
            pdds := s.pdds.set c.dev (pdd.registerFirst s.pid c)
            queueSlotBitmap := some map' }, .error e)) ∨
      (∃ e, c.procCtxFails pdd = none ∧ c.laterError = some e ∧ pqmCreateQueue s c =
        ({ s with
            pdds := s.pdds.set c.dev (pdd.undone s.pid c)
            queueSlotBitmap := some (map'.erase qid) }, .error e)) ∨
      (∃ pdd', c.procCtxFails pdd = none ∧ c.laterError = none ∧ pqmCreateQueue s c =
        ({ s with
            pdds := s.pdds.set c.dev pdd'
            queueSlotBitmap := some map'
            queues := ⟨qid, c.dev, c.type = .diq⟩ :: s.queues }, .ok qid))) := by
  cases hstarts : c.starts s with
  | none => exact .inl ⟨rfl, createQueue_of_none hstarts⟩
  | some r =>
    obtain ⟨pdd, map', qid⟩ := r
    obtain ⟨map, hmap, hpdd, hroom, hslot⟩ := starts_some hstarts
    obtain ⟨hfree, hlt, heq⟩ := takeSlot_ok hslot
    refine .inr ⟨pdd, map, map', qid, rfl, hmap, hpdd, hfree, hlt, heq, ?_⟩
    unfold pqmCreateQueue
    rw [hmap, hpdd]
    dsimp only
    rw [if_neg (not_le.mpr hroom), hslot]
    dsimp only
    rw [registerFirst_procCtxFails]
    cases hctx : c.procCtxFails pdd with
    | some e => exact .inl ⟨e, rfl, rfl⟩
    | none =>
      cases hlater : c.laterError with
      | some e => exact .inr (.inl ⟨e, rfl, rfl, rfl⟩)
      | none => exact .inr (.inr ⟨_, rfl, rfl, rfl⟩)

theorem undone_queues_iff (pid : Nat) :
    (pdd.undone pid c).queues = pdd.queues ↔
      (pdd.noQueues = true → c.registerNode = true ∨ pid ∉ pdd.queues) := by
  have hno : (pdd.registerFirst pid c).noQueues = pdd.noQueues := registerFirst_noQueues pid
  cases hempty : pdd.noQueues with
  | false =>
    have hreg : pdd.registerFirst pid c = pdd := if_neg (by rw [hempty]; exact Bool.false_ne_true)
    have hundone : (pdd.undone pid c).queues = pdd.queues := by
      unfold Pdd.undone
      rw [hreg]
      dsimp only
      rw [if_neg]
      show ¬pdd.noQueues = true
      rw [hempty]
      exact Bool.false_ne_true
    exact iff_of_true hundone nofun
  | true =>
    have hreg : pdd.registerFirst pid c = registerProcess c.registerNode pid pdd := if_pos hempty
    have hundone : (pdd.undone pid c).queues =
        (registerProcess c.registerNode pid pdd).queues.erase pid := by
      unfold Pdd.undone
      rw [← hreg]
      dsimp only
      rw [if_pos]
      · rfl
      · exact hno.trans hempty
    rw [hundone]
    unfold registerProcess
    cases c.registerNode with
    | true => exact iff_of_true (erase_cons_head ..) fun _ => .inl rfl
    | false =>
      rw [if_neg Bool.false_ne_true]
      constructor
      · intro heq _
        refine .inr fun hmem => ?_
        have hlen := length_erase_of_mem hmem
        rw [heq] at hlen
        have := length_pos_of_mem hmem
        omega
      · intro h
        exact erase_of_not_mem ((h rfl).resolve_left Bool.false_ne_true)

theorem registered_set_iff {pdd' : Pdd} {i : Nat} (hpdd : s.pdds[i]? = some pdd) :
    (s.pdds.set i pdd').map (·.queues) = s.registered ↔ pdd'.queues = pdd.queues := by
  obtain ⟨hlt, hget⟩ := List.getElem?_eq_some_iff.mp hpdd
  unfold Pqm.registered
  rw [map_set]
  constructor
  · intro h
    have hi := congrArg (·[i]?) h
    simp only [getElem?_map, hpdd, Option.map_some] at hi
    rw [getElem?_set_self (by rwa [length_map])] at hi
    exact some.inj hi
  · intro h
    rw [h]
    refine ext_getElem? fun j => ?_
    rw [getElem?_set]
    split
    · next heq =>
      subst heq
      rw [if_pos (by rwa [length_map]), getElem?_map, hpdd]
      rfl
    · rfl

theorem createQueue_keeps_iff (s : Pqm) (c : CreateArgs) : c.Keeps s ↔ c.Ok s := by
  unfold CreateArgs.Keeps CreateArgs.Ok
  rcases createQueue_cases s c with ⟨hnone, e, heq⟩ |
    ⟨pdd, map, map', qid, hstarts, hmap, hpdd, hfree, hlt, hmap', hcases⟩
  · refine iff_of_true (fun e' _ => ?_) fun pdd map' qid h => ?_
    · rw [heq]
      exact ⟨rfl, rfl, rfl⟩
    · rw [hnone] at h
      cases h
  · have herase : map'.erase qid = map := by rw [hmap', Finset.erase_insert hfree]
    rcases hcases with ⟨e, hctx, heq⟩ | ⟨e, hctx, hlater, heq⟩ | ⟨pdd', hctx, hlater, heq⟩
    · -- the slot stays taken
      refine iff_of_false (fun h => ?_) fun h => ?_
      · have hsame := (h e (by rw [heq])).1
        rw [heq, hmap] at hsame
        have hmem : qid ∈ map := by
          rw [← some.inj hsame, hmap']
          exact Finset.mem_insert_self qid map
        exact hfree hmem
      · rw [(h pdd map' qid hstarts).1] at hctx
        cases hctx
    · rw [heq]
      constructor
      · intro h pdd1 map1 qid1 hstarts1
        rw [hstarts] at hstarts1
        cases hstarts1
        refine ⟨hctx, fun _ => (undone_queues_iff s.pid).mp ?_⟩
        exact (registered_set_iff hpdd).mp (h e rfl).2.2
      · intro h e' _
        have hok := (h pdd map' qid hstarts).2 (by rw [hlater]; nofun)
        refine ⟨?_, rfl, (registered_set_iff hpdd).mpr ((undone_queues_iff s.pid).mpr hok)⟩
        dsimp only
        rw [herase, hmap]
    · refine iff_of_true (fun e' he' => ?_) fun pdd1 map1 qid1 hstarts1 => ?_
      · rw [heq] at he'
        cases he'
      · rw [hstarts] at hstarts1
        cases hstarts1
        exact ⟨hctx, fun hne => absurd hlater hne⟩

end Create

/-! ## Slots over a run -/

section Run
variable {s : Pqm}

theorem SlotsOk.init (pid : Nat) (pdds : List Pdd) : SlotsOk (pqmInit pid pdds) where
  taken := by
    rintro map ⟨⟩ qid
    exact iff_of_false (Finset.notMem_empty qid) nofun
  distinct := nodup_nil
  bound := nofun
  gone := nofun

theorem SlotsOk.congr {s' : Pqm} (h : SlotsOk s) (hmap : s'.queueSlotBitmap = s.queueSlotBitmap)
    (hqueues : s'.queues = s.queues) : SlotsOk s' := by
  obtain ⟨pid, pdds, map, queues⟩ := s
  obtain ⟨pid', pdds', map', queues'⟩ := s'
  cases hmap
  cases hqueues
  exact ⟨h.taken, h.distinct, h.bound, h.gone⟩

theorem create_slotsOk (h : SlotsOk s) {c : CreateArgs} (hok : c.Ok s) :
    SlotsOk (pqmCreateQueue s c).1 := by
  rcases createQueue_cases s c with ⟨-, e, heq⟩ |
    ⟨pdd, map, map', qid, hstarts, hmap, -, hfree, hlt, hmap', hcases⟩
  · rw [heq]
    exact h
  · rcases hcases with ⟨e, hctx, heq⟩ | ⟨e, hctx, hlater, heq⟩ | ⟨pdd', hctx, hlater, heq⟩
    · rw [(hok pdd map' qid hstarts).1] at hctx
      cases hctx
    · rw [heq]
      refine h.congr ?_ rfl
      dsimp only
      rw [hmap', Finset.erase_insert hfree, hmap]
    · rw [heq]
      have hnew : ∀ pqn ∈ s.queues, pqn.qid ≠ qid := fun pqn hpqn heq =>
        hfree ((h.taken map hmap qid).mpr ⟨pqn, hpqn, heq⟩)
      refine ⟨?_, ?_, ?_, nofun⟩
      · rintro map1 ⟨⟩ x
        rw [hmap', Finset.mem_insert, h.taken map hmap x]
        constructor
        · rintro (rfl | ⟨pqn, hpqn, hx⟩)
          · exact ⟨_, mem_cons_self, rfl⟩
          · exact ⟨pqn, mem_cons_of_mem _ hpqn, hx⟩
        · rintro ⟨pqn, hpqn, hx⟩
          rcases mem_cons.mp hpqn with rfl | hpqn
          · exact .inl hx.symm
          · exact .inr ⟨pqn, hpqn, hx⟩
      · refine nodup_cons.mpr ⟨fun hmem => ?_, h.distinct⟩
        obtain ⟨pqn, hpqn, hx⟩ := mem_map.mp hmem
        exact hnew pqn hpqn hx
      · intro pqn hpqn
        rcases mem_cons.mp hpqn with rfl | hpqn
        · exact hlt
        · exact h.bound pqn hpqn

theorem mem_eraseP_iff {queues : List Pqn} (h : (queues.map (·.qid)).Nodup)
    (qid : Nat) (pqn : Pqn) :
    pqn ∈ queues.eraseP (·.qid = qid) ↔ pqn ∈ queues ∧ pqn.qid ≠ qid := by
  induction queues with
  | nil => simp
  | cons x queues ih =>
    obtain ⟨hx, hqueues⟩ := nodup_cons.mp h
    have hout : ∀ y ∈ queues, y.qid ≠ x.qid := fun y hy heq =>
      hx (mem_map.mpr ⟨y, hy, heq⟩)
    rw [eraseP_cons]
    by_cases hqid : x.qid = qid
    · rw [decide_eq_true hqid, cond_true, mem_cons]
      constructor
      · exact fun hmem => ⟨.inr hmem, hqid ▸ hout pqn hmem⟩
      · rintro ⟨rfl | hmem, hne⟩
        · exact absurd hqid hne
        · exact hmem
    · rw [decide_eq_false hqid, cond_false, mem_cons, mem_cons, ih hqueues]
      constructor
      · rintro (rfl | ⟨hmem, hne⟩)
        · exact ⟨.inl rfl, hqid⟩
        · exact ⟨.inr hmem, hne⟩
      · rintro ⟨rfl | hmem, hne⟩
        · exact .inl rfl
        · exact .inr ⟨hmem, hne⟩

theorem destroy_slotsOk (h : SlotsOk s) (qid : Nat) (d : DestroyArgs) :
    SlotsOk (pqmDestroyQueue s qid d).1 := by
  unfold pqmDestroyQueue
  split
  · exact h
  · next pqn hfind =>
    split
    · exact h
    · dsimp only
      split
      · exact h.congr rfl rfl
      · have hmem := mem_eraseP_iff h.distinct qid
        refine ⟨fun map hmap x => ?_, ?_, ?_, fun hnone => ?_⟩
        · obtain ⟨map0, hmap0, rfl⟩ := Option.map_eq_some_iff.mp hmap
          rw [Finset.mem_erase, h.taken map0 hmap0 x]
          constructor
          · rintro ⟨hne, pqn, hpqn, rfl⟩
            exact ⟨pqn, (hmem pqn).mpr ⟨hpqn, hne⟩, rfl⟩
          · rintro ⟨pqn, hpqn, rfl⟩
            obtain ⟨hin, hne⟩ := (hmem pqn).mp hpqn
            exact ⟨hne, pqn, hin, rfl⟩
        · exact h.distinct.sublist (eraseP_sublist.map _)
        · exact fun pqn hpqn => h.bound pqn ((hmem pqn).mp hpqn).1
        · have hempty := h.gone (Option.map_eq_none_iff.mp hnone)
          dsimp only
          rw [hempty]
          rfl

def Op.Ok (s : Pqm) : Op → Prop
  | .create c => c.Ok s
  | _ => True

theorem step_slotsOk (h : SlotsOk s) {op : Op} (hok : op.Ok s) : SlotsOk (step s op) := by
  cases op with
  | create c => exact create_slotsOk h hok
  | destroy qid d => exact destroy_slotsOk h qid d
  | uninit => exact ⟨nofun, nodup_nil, nofun, fun _ => rfl⟩
  | device dev pdd => exact h.congr rfl rfl

/-- In every run whose creations meet their condition, the slots that are taken are those
of the queues on the list; and in the state that is reached, a failing creation leaves
all as it was exactly when it meets the condition. -/
theorem slots_run (pid : Nat) (pdds : List Pdd) (ops : List Op)
    (hok : StepsOk step (fun s op => op.Ok s) (pqmInit pid pdds) ops) :
    SlotsOk (run step (pqmInit pid pdds) ops) ∧
      ∀ c : CreateArgs, c.Keeps (run step (pqmInit pid pdds) ops) ↔
        c.Ok (run step (pqmInit pid pdds) ops) := by
  refine ⟨?_, createQueue_keeps_iff _⟩
  exact run_inv_of_stepsOk (P := SlotsOk) (fun _ _ h hok => step_slotsOk h hok)
    (SlotsOk.init pid pdds) hok

def exPdd : Pdd :=
  { enableMes := true
    isGfx943 := false
    maxNoOfHqd := 24
    queues := []
    procCtx := false
    isDebug := false
    queueCount := 0
    queuesList := []
    privQueueList := [] }

def exCreate : CreateArgs :=
  { dev := 0
    type := .compute
    qData := none
    registerNode := true
    procCtx := none
    pqn := true
    overSubscription := false
    initUserQueue := none
    kernelQueueInit := true
    drainInterrupts := none
    createQueue := none }

theorem exCreate_starts (c : CreateArgs) (hdev : c.dev = 0) (htype : c.type = .compute)
    (hdata : c.qData = none) :
    c.starts (pqmInit 0 [exPdd]) = some (exPdd, {0}, 0) := by
  unfold CreateArgs.starts takeSlot
  rw [hdev, htype, hdata]
  rfl

theorem slots_run_exCreate :
    (pqmCreateQueue (pqmInit 0 [exPdd]) exCreate).2 = .ok 0 ∧
      SlotsOk (run step (pqmInit 0 [exPdd]) [.create exCreate]) := by
  have hok : StepsOk step (fun s op => op.Ok s) (pqmInit 0 [exPdd]) [.create exCreate] := by
    refine ⟨fun pdd map' qid h => ?_, trivial⟩
    rw [exCreate_starts exCreate rfl rfl rfl] at h
    cases h
    exact ⟨rfl, fun hne => absurd rfl hne⟩
  exact ⟨rfl, (slots_run 0 [exPdd] [.create exCreate] hok).1⟩

def exNoCtx : CreateArgs :=
  { exCreate with procCtx := some .enomem }

/-- Slot 0 stays taken with no queue on the list, and the process stays registered. -/
theorem slots_run_leak :
    ¬SlotsOk (run step (pqmInit 0 [exPdd]) [.create exNoCtx]) ∧
      ¬exNoCtx.Keeps (pqmInit 0 [exPdd]) := by
  constructor
  · intro h
    obtain ⟨pqn, hpqn, -⟩ := (h.taken _ rfl 0).mp (by decide)
    cases hpqn
  · intro h
    have hsame := (h .enomem rfl).2.2
    exact absurd hsame (by decide)

end Run

end Amdkfd.QueueSlots

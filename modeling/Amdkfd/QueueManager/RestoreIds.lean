import Amdkfd.NoHws.Resources
import Mathlib.Data.List.Find

/-!
# Restoring the ids of a queue

`allocate_sdma_queue`, `allocate_doorbell` and `assign_queue_slot_by_qid` with the ids of a
checkpoint, which are 32-bit values from user space. The bits are those of the memory from the
start of each bitmap on, since two of the functions do not check the id against the size of the
bitmap.
-/

namespace Amdkfd.RestoreIds

open Lib List
open QueueManager (QueueType)
open NoHws (Device isSdma maxSdmaQueues maxQueuesPerProcess)

/-- The set bits of the memory from the start of `dqm->sdma_bitmap`, `dqm->xgmi_sdma_bitmap`,
`qpd->doorbell_bitmap` and `pqm->queue_slot_bitmap` on. In the first two a set bit is free, in
the others a clear bit is. -/
structure Bits where
  sdma : Bitmap
  xgmiSdma : Bitmap
  doorbell : Bitmap
  queueSlot : Bitmap

structure SdmaIds where
  sdmaId : Nat
  engineId : Nat
  queueId : Nat

def testAndSetBit (mem : Bitmap) (bit : Nat) : Bitmap × Bool :=
  (insert bit mem, bit ∈ mem)

/-- One of the two branches of `allocate_sdma_queue`. -/
def takeSdma (mem : Bitmap) (size : Nat) (restoreSdmaId : Option Nat) : Bitmap × Except Errno Nat :=
  -- bitmap_empty
  if mem.filter (· < maxSdmaQueues) = ∅ then (mem, .error .enomem)
  else
    match restoreSdmaId with
    | some id => if id ∉ mem then (mem, .error .ebusy) else (mem.erase id, .ok id)
    | none => (mem.erase (findFirstBit mem size), .ok (findFirstBit mem size))

def sdmaIds (d : Device) (id : Nat) : SdmaIds :=
  { sdmaId := id, engineId := id % d.sdmaEngines, queueId := id / d.sdmaEngines }

def xgmiSdmaIds (d : Device) (id : Nat) : SdmaIds :=
  { sdmaId := id, engineId := d.sdmaEngines + id % d.xgmiEngines, queueId := id / d.xgmiEngines }

def allocateSdmaQueue (d : Device) (b : Bits) (type : QueueType) (restoreSdmaId : Option Nat) :
    Bits × Except Errno (Option SdmaIds) :=
  match type with
  | .sdma =>
    let r := takeSdma b.sdma d.numSdmaQueues restoreSdmaId
    ({ b with sdma := r.1 }, r.2.map fun id => some (sdmaIds d id))
  | .sdmaXgmi =>
    let r := takeSdma b.xgmiSdma d.numXgmiSdmaQueues restoreSdmaId
    ({ b with xgmiSdma := r.1 }, r.2.map fun id => some (xgmiSdmaIds d id))
  | _ => (b, .ok none)

def deallocateSdmaQueue (d : Device) (b : Bits) (type : QueueType) (sdmaId : Nat) : Bits :=
  match type with
  | .sdma =>
    if d.numSdmaQueues ≤ sdmaId then b else { b with sdma := insert sdmaId b.sdma }
  | .sdmaXgmi =>
    if d.numXgmiSdmaQueues ≤ sdmaId then b else { b with xgmiSdma := insert sdmaId b.xgmiSdma }
  | _ => b

def fixedDoorbell (b : Bits) (id : Nat) (restoreId : Option Nat) : Bits × Except Errno Nat :=
  if restoreId.any (· ≠ id) then (b, .error .einval) else (b, .ok id)

def allocateDoorbell (d : Device) (b : Bits) (type : QueueType) (queueId : Nat) (ids : SdmaIds)
    (restoreId : Option Nat) : Bits × Except Errno Nat :=
  if d.soc15 = false then fixedDoorbell b queueId restoreId
  else if isSdma type then fixedDoorbell b (d.sdmaDoorbell ids.engineId ids.queueId) restoreId
  else
    match restoreId with
    | some id =>
      let r := testAndSetBit b.doorbell id
      ({ b with doorbell := r.1 }, if r.2 then .error .einval else .ok id)
    | none =>
      let found := findNextZeroBit b.doorbell maxQueuesPerProcess 0
      if maxQueuesPerProcess ≤ found then (b, .error .ebusy)
      else ({ b with doorbell := insert found b.doorbell }, .ok found)

def deallocateDoorbell (d : Device) (b : Bits) (type : QueueType) (doorbellId : Nat) : Bits :=
  if d.soc15 = false ∨ isSdma type then b
  else { b with doorbell := b.doorbell.erase doorbellId }

def assignQueueSlotByQid (b : Bits) (qid : Nat) : Bits × Except Errno Nat :=
  if maxQueuesPerProcess ≤ qid then (b, .error .einval)
  else
    let r := testAndSetBit b.queueSlot qid
    ({ b with queueSlot := r.1 }, if r.2 then .error .enospc else .ok qid)

def findAvailableQueueSlot (b : Bits) : Bits × Except Errno Nat :=
  let found := findNextZeroBit b.queueSlot maxQueuesPerProcess 0
  if maxQueuesPerProcess ≤ found then (b, .error .enomem)
  else ({ b with queueSlot := insert found b.queueSlot }, .ok found)

/-! ## Runs -/

def splice (size : Nat) (mem beyond : Bitmap) : Bitmap :=
  mem.filter (· < size) ∪ beyond.filter (size ≤ ·)

/-- Something else is written to the memory after the bitmaps. -/
def Bits.splice (b m : Bits) : Bits :=
  { sdma := RestoreIds.splice maxSdmaQueues b.sdma m.sdma
    xgmiSdma := RestoreIds.splice maxSdmaQueues b.xgmiSdma m.xgmiSdma
    doorbell := RestoreIds.splice maxQueuesPerProcess b.doorbell m.doorbell
    queueSlot := RestoreIds.splice maxQueuesPerProcess b.queueSlot m.queueSlot }

structure Alloc where
  bits : Bits
  sdmaGiven : List (QueueType × Nat)
  doorbellGiven : List (QueueType × Nat)

def allocInit (d : Device) (m : Bits) : Alloc :=
  { bits :=
      { sdma := Finset.range d.numSdmaQueues \ d.reservedSdma
        xgmiSdma := Finset.range d.numXgmiSdmaQueues
        doorbell := d.reservedDoorbells
        queueSlot := ∅ : Bits }.splice m
    sdmaGiven := []
    doorbellGiven := [] }

inductive Op
  | allocateSdma (type : QueueType) (restoreSdmaId : Option Nat)
  | deallocateSdma (i : Nat)
  | allocateDoorbell (type : QueueType) (queueId : Nat) (ids : SdmaIds) (restoreId : Option Nat)
  | deallocateDoorbell (i : Nat)
  | assignSlot (qid : Nat)
  | findSlot
  | clearSlot (qid : Nat)
  /-- The memory after the bitmaps changes. -/
  | beyond (m : Bits)

def allocStep (d : Device) (s : Alloc) : Op → Alloc
  | .allocateSdma type restoreSdmaId =>
    match allocateSdmaQueue d s.bits type restoreSdmaId with
    | (b, .ok (some ids)) =>
      { s with bits := b, sdmaGiven := (type, ids.sdmaId) :: s.sdmaGiven }
    | (b, _) => { s with bits := b }
  | .deallocateSdma i =>
    match s.sdmaGiven[i]? with
    | some (type, id) => { s with bits := deallocateSdmaQueue d s.bits type id }
    | none => s
  | .allocateDoorbell type queueId ids restoreId =>
    match allocateDoorbell d s.bits type queueId ids restoreId with
    | (b, .ok id) => { s with bits := b, doorbellGiven := (type, id) :: s.doorbellGiven }
    | (b, .error _) => { s with bits := b }
  | .deallocateDoorbell i =>
    match s.doorbellGiven[i]? with
    | some (type, id) => { s with bits := deallocateDoorbell d s.bits type id }
    | none => s
  | .assignSlot qid => { s with bits := (assignQueueSlotByQid s.bits qid).1 }
  | .findSlot => { s with bits := (findAvailableQueueSlot s.bits).1 }
  | .clearSlot qid => { s with bits := { s.bits with queueSlot := s.bits.queueSlot.erase qid } }
  | .beyond m => { s with bits := s.bits.splice m }

def Reached (d : Device) (b : Bits) : Prop :=
  ∃ m ops, (run (allocStep d) (allocInit d m) ops).bits = b

/-- The bits that are set in the bitmaps are those of ids to give out: SDMA queues that are not
reserved are free, and the doorbells that are reserved are in use. -/
structure Bits.Ok (d : Device) (b : Bits) : Prop where
  sdma : ∀ i ∈ b.sdma, i < maxSdmaQueues → i < d.numSdmaQueues ∧ i ∉ d.reservedSdma
  xgmiSdma : ∀ i ∈ b.xgmiSdma, i < maxSdmaQueues → i < d.numXgmiSdmaQueues
  doorbell : d.reservedDoorbells ⊆ b.doorbell

structure Alloc.Ok (d : Device) (s : Alloc) : Prop extends s.bits.Ok d where
  sdmaGiven : ∀ id, (.sdma, id) ∈ s.sdmaGiven → id < d.numSdmaQueues → id ∉ d.reservedSdma
  doorbellGiven : ∀ type id, (type, id) ∈ s.doorbellGiven → d.soc15 = true →
    isSdma type = false → id ∉ d.reservedDoorbells

section Calls
variable {d : Device} {b : Bits} {mem : Bitmap} {size id : Nat} {restoreId : Option Nat}
  {type : QueueType} {queueId : Nat} {ids : SdmaIds}

theorem takeSdma_cases (hsize : ∀ i ∈ mem, i < maxSdmaQueues → i < size)
    (restoreId : Option Nat) :
    (∃ e, takeSdma mem size restoreId = (mem, .error e)) ∨
      mem.filter (· < maxSdmaQueues) ≠ ∅ ∧ ∃ id ∈ mem,
        (restoreId = some id ∨ id < maxSdmaQueues) ∧
          takeSdma mem size restoreId = (mem.erase id, .ok id) := by
  unfold takeSdma
  by_cases hempty : mem.filter (· < maxSdmaQueues) = ∅
  · rw [if_pos hempty]
    exact .inl ⟨_, rfl⟩
  rw [if_neg hempty]
  cases restoreId with
  | some id =>
    by_cases hid : id ∉ mem
    · exact .inl ⟨_, if_pos hid⟩
    · exact .inr ⟨hempty, id, not_not.mp hid, .inl rfl, if_neg hid⟩
  | none =>
    obtain ⟨i, hi⟩ := Finset.nonempty_iff_ne_empty.mpr hempty
    obtain ⟨hmem, hlt⟩ := Finset.mem_filter.mp hi
    have hfirst := findFirstBit_le hmem (hsize i hmem hlt)
    exact .inr ⟨hempty, _, (findFirstBit_mem hmem (hsize i hmem hlt)).1, .inr (hfirst.trans_lt hlt),
      rfl⟩

theorem allocateDoorbell_cases (d : Device) (b : Bits) (type : QueueType) (queueId : Nat)
    (ids : SdmaIds) (restoreId : Option Nat) :
    (∃ e, allocateDoorbell d b type queueId ids restoreId = (b, .error e)) ∨
    (¬(d.soc15 = true ∧ isSdma type = false) ∧
      ∃ id, allocateDoorbell d b type queueId ids restoreId = (b, .ok id)) ∨
    (d.soc15 = true ∧ isSdma type = false) ∧ ∃ id, id ∉ b.doorbell ∧
      allocateDoorbell d b type queueId ids restoreId =
        ({ b with doorbell := insert id b.doorbell }, .ok id) := by
  have hfixed : ∀ id, (∃ e, fixedDoorbell b id restoreId = (b, .error e)) ∨
      ∃ id', fixedDoorbell b id restoreId = (b, .ok id') := by
    intro id
    unfold fixedDoorbell
    split
    · exact .inl ⟨_, rfl⟩
    · exact .inr ⟨_, rfl⟩
  unfold allocateDoorbell
  by_cases hsoc : d.soc15 = false
  · rw [if_pos hsoc]
    rcases hfixed queueId with herr | hok
    · exact .inl herr
    · exact .inr (.inl ⟨fun h => Bool.false_ne_true (hsoc.symm.trans h.1), hok⟩)
  rw [if_neg hsoc]
  by_cases hsdma : isSdma type = true
  · rw [if_pos hsdma]
    rcases hfixed (d.sdmaDoorbell ids.engineId ids.queueId) with herr | hok
    · exact .inl herr
    · exact .inr (.inl ⟨fun h => Bool.false_ne_true (h.2.symm.trans hsdma), hok⟩)
  rw [if_neg hsdma]
  have hcp : d.soc15 = true ∧ isSdma type = false :=
    ⟨Bool.not_eq_false _ ▸ hsoc, Bool.not_eq_true _ ▸ hsdma⟩
  -- test_and_set_bit fails on a bit that is set, and leaves it set
  cases restoreId with
  | some id =>
    unfold testAndSetBit
    dsimp only
    by_cases hid : id ∈ b.doorbell
    · rw [Finset.insert_eq_of_mem hid, decide_eq_true hid, if_pos rfl]
      exact .inl ⟨_, rfl⟩
    · rw [decide_eq_false hid, if_neg Bool.false_ne_true]
      exact .inr (.inr ⟨hcp, id, hid, rfl⟩)
  | none =>
    dsimp only
    by_cases hfull : maxQueuesPerProcess ≤ findNextZeroBit b.doorbell maxQueuesPerProcess 0
    · rw [if_pos hfull]
      exact .inl ⟨_, rfl⟩
    · rw [if_neg hfull]
      exact .inr (.inr ⟨hcp, _, findNextZeroBit_clear (not_le.mp hfull), rfl⟩)

theorem assignQueueSlotByQid_cases (b : Bits) (qid : Nat) :
    (∃ e, assignQueueSlotByQid b qid = (b, .error e)) ∨
      qid < maxQueuesPerProcess ∧ qid ∉ b.queueSlot ∧
        assignQueueSlotByQid b qid = ({ b with queueSlot := insert qid b.queueSlot }, .ok qid) := by
  unfold assignQueueSlotByQid testAndSetBit
  by_cases hlt : maxQueuesPerProcess ≤ qid
  · rw [if_pos hlt]
    exact .inl ⟨_, rfl⟩
  rw [if_neg hlt]
  dsimp only
  by_cases hqid : qid ∈ b.queueSlot
  · rw [Finset.insert_eq_of_mem hqid, decide_eq_true hqid, if_pos rfl]
    exact .inl ⟨_, rfl⟩
  · rw [decide_eq_false hqid, if_neg Bool.false_ne_true]
    exact .inr ⟨not_le.mp hlt, hqid, rfl⟩

end Calls

/-! ## The invariant -/

section Inv
variable {d : Device} {s : Alloc} {b : Bits}

theorem mem_splice {size i : Nat} {mem beyond : Bitmap} :
    i ∈ splice size mem beyond ↔ i < size ∧ i ∈ mem ∨ size ≤ i ∧ i ∈ beyond := by
  simp [splice, and_comm]

theorem reservedDoorbells_lt {i : Nat} (hi : i ∈ d.reservedDoorbells) :
    i < maxQueuesPerProcess := by
  unfold Device.reservedDoorbells at hi
  split at hi
  · exact Finset.mem_range.mp (Finset.mem_filter.mp hi).1
  · exact absurd hi (Finset.notMem_empty i)

theorem Bits.Ok.splice (h : b.Ok d) (m : Bits) : (b.splice m).Ok d where
  sdma := by
    intro i hi hlt
    rcases mem_splice.mp hi with ⟨-, hmem⟩ | ⟨hge, -⟩
    · exact h.sdma i hmem hlt
    · exact absurd hlt (not_lt.mpr hge)
  xgmiSdma := by
    intro i hi hlt
    rcases mem_splice.mp hi with ⟨-, hmem⟩ | ⟨hge, -⟩
    · exact h.xgmiSdma i hmem hlt
    · exact absurd hlt (not_lt.mpr hge)
  doorbell := fun _ hi => mem_splice.mpr (.inl ⟨reservedDoorbells_lt hi, h.doorbell hi⟩)

theorem allocInit_ok (d : Device) (m : Bits) : (allocInit d m).Ok d where
  toOk := by
    refine Bits.Ok.splice ⟨fun i hi _ => ?_, fun i hi _ => Finset.mem_range.mp hi, fun _ hi => hi⟩ m
    obtain ⟨hrange, hfree⟩ := Finset.mem_sdiff.mp hi
    exact ⟨Finset.mem_range.mp hrange, hfree⟩
  sdmaGiven := nofun
  doorbellGiven := nofun

theorem Alloc.Ok.allocateSdma (h : s.Ok d) (type : QueueType) (restoreId : Option Nat) :
    (allocStep d s (.allocateSdma type restoreId)).Ok d := by
  unfold allocStep allocateSdmaQueue
  cases type with
  | sdma =>
    rcases takeSdma_cases (fun i hi hlt => (h.sdma i hi hlt).1) restoreId with
      ⟨e, heq⟩ | ⟨-, id, hid, -, heq⟩
    · dsimp only
      rw [heq]
      exact h
    · dsimp only
      rw [heq]
      refine ⟨⟨fun i hi => h.sdma i (Finset.mem_of_mem_erase hi), h.xgmiSdma, h.doorbell⟩,
        fun i hi hlt => ?_, h.doorbellGiven⟩
      rcases mem_cons.mp hi with hi | hi
      · cases hi
        exact (h.sdma id hid (hlt.trans_le d.sdma_le)).2
      · exact h.sdmaGiven i hi hlt
  | sdmaXgmi =>
    rcases takeSdma_cases h.xgmiSdma restoreId with ⟨e, heq⟩ | ⟨-, id, hid, -, heq⟩
    · dsimp only
      rw [heq]
      exact h
    · dsimp only
      rw [heq]
      refine ⟨⟨h.sdma, fun i hi => h.xgmiSdma i (Finset.mem_of_mem_erase hi), h.doorbell⟩,
        fun i hi => ?_, h.doorbellGiven⟩
      rcases mem_cons.mp hi with hi | hi
      · cases hi
      · exact h.sdmaGiven i hi
  | compute | hiq | diq => exact h

theorem Alloc.Ok.deallocateSdma (h : s.Ok d) (i : Nat) :
    (allocStep d s (.deallocateSdma i)).Ok d := by
  unfold allocStep deallocateSdmaQueue
  dsimp only
  split
  · next type id hget =>
    have hmem := mem_of_getElem? hget
    cases type with
    | sdma =>
      dsimp only
      by_cases hlt : d.numSdmaQueues ≤ id
      · rw [if_pos hlt]
        exact h
      · rw [if_neg hlt]
        refine ⟨⟨fun i hi hi' => ?_, h.xgmiSdma, h.doorbell⟩, h.sdmaGiven, h.doorbellGiven⟩
        rcases Finset.mem_insert.mp hi with rfl | hi
        · exact ⟨not_le.mp hlt, h.sdmaGiven _ hmem (not_le.mp hlt)⟩
        · exact h.sdma i hi hi'
    | sdmaXgmi =>
      dsimp only
      by_cases hlt : d.numXgmiSdmaQueues ≤ id
      · rw [if_pos hlt]
        exact h
      · rw [if_neg hlt]
        refine ⟨⟨h.sdma, fun i hi hi' => ?_, h.doorbell⟩, h.sdmaGiven, h.doorbellGiven⟩
        rcases Finset.mem_insert.mp hi with rfl | hi
        · exact not_le.mp hlt
        · exact h.xgmiSdma i hi hi'
    | compute | hiq | diq => exact h
  · exact h

theorem Alloc.Ok.allocateDoorbell (h : s.Ok d) (type : QueueType) (queueId : Nat) (ids : SdmaIds)
    (restoreId : Option Nat) :
    (allocStep d s (.allocateDoorbell type queueId ids restoreId)).Ok d := by
  unfold allocStep
  dsimp only
  rcases allocateDoorbell_cases d s.bits type queueId ids restoreId with
    ⟨e, heq⟩ | ⟨hfixed, id, heq⟩ | ⟨hcp, id, hid, heq⟩
  · rw [heq]
    exact h
  · rw [heq]
    refine ⟨h.toOk, h.sdmaGiven, fun type' id' hmem hsoc hsdma => ?_⟩
    rcases mem_cons.mp hmem with hmem | hmem
    · cases hmem
      exact absurd ⟨hsoc, hsdma⟩ hfixed
    · exact h.doorbellGiven type' id' hmem hsoc hsdma
  · rw [heq]
    refine ⟨⟨h.sdma, h.xgmiSdma, h.doorbell.trans (Finset.subset_insert _ _)⟩, h.sdmaGiven,
      fun type' id' hmem hsoc hsdma => ?_⟩
    rcases mem_cons.mp hmem with hmem | hmem
    · cases hmem
      -- reserved doorbells are set from the start, and the bit was clear
      exact fun hres => hid (h.doorbell hres)
    · exact h.doorbellGiven type' id' hmem hsoc hsdma

theorem Alloc.Ok.deallocateDoorbell (h : s.Ok d) (i : Nat) :
    (allocStep d s (.deallocateDoorbell i)).Ok d := by
  unfold allocStep RestoreIds.deallocateDoorbell
  dsimp only
  split
  · next type id hget =>
    by_cases hfixed : d.soc15 = false ∨ isSdma type = true
    · rw [if_pos hfixed]
      exact h
    · rw [if_neg hfixed]
      obtain ⟨hsoc, hsdma⟩ := not_or.mp hfixed
      have hid := h.doorbellGiven type id (mem_of_getElem? hget) (Bool.not_eq_false _ ▸ hsoc)
        (Bool.not_eq_true _ ▸ hsdma)
      refine ⟨⟨h.sdma, h.xgmiSdma, fun j hj => ?_⟩, h.sdmaGiven, h.doorbellGiven⟩
      exact Finset.mem_erase.mpr ⟨fun heq => hid (heq ▸ hj), h.doorbell hj⟩
  · exact h

theorem Alloc.Ok.step (h : s.Ok d) (op : Op) : (allocStep d s op).Ok d := by
  cases op with
  | allocateSdma type restoreId => exact h.allocateSdma type restoreId
  | deallocateSdma i => exact h.deallocateSdma i
  | allocateDoorbell type queueId ids restoreId =>
    exact h.allocateDoorbell type queueId ids restoreId
  | deallocateDoorbell i => exact h.deallocateDoorbell i
  | assignSlot qid =>
    have hsame : (allocStep d s (.assignSlot qid)).bits.sdma = s.bits.sdma ∧
        (allocStep d s (.assignSlot qid)).bits.xgmiSdma = s.bits.xgmiSdma ∧
        (allocStep d s (.assignSlot qid)).bits.doorbell = s.bits.doorbell := by
      unfold allocStep
      rcases assignQueueSlotByQid_cases s.bits qid with ⟨e, heq⟩ | ⟨-, -, heq⟩
      · dsimp only
        rw [heq]
        exact ⟨rfl, rfl, rfl⟩
      · dsimp only
        rw [heq]
        exact ⟨rfl, rfl, rfl⟩
    exact ⟨⟨hsame.1 ▸ h.sdma, hsame.2.1 ▸ h.xgmiSdma, hsame.2.2 ▸ h.doorbell⟩, h.sdmaGiven,
      h.doorbellGiven⟩
  | findSlot =>
    unfold allocStep findAvailableQueueSlot
    dsimp only
    split
    · exact h
    · exact ⟨⟨h.sdma, h.xgmiSdma, h.doorbell⟩, h.sdmaGiven, h.doorbellGiven⟩
  | clearSlot qid => exact ⟨⟨h.sdma, h.xgmiSdma, h.doorbell⟩, h.sdmaGiven, h.doorbellGiven⟩
  | beyond m => exact ⟨h.toOk.splice m, h.sdmaGiven, h.doorbellGiven⟩

theorem Reached.ok (h : Reached d b) : b.Ok d := by
  obtain ⟨m, ops, rfl⟩ := h
  exact (run_inv (P := Alloc.Ok d) (fun _ op h => h.step op) (allocInit_ok d m) ops).toOk

end Inv

/-! ## Allocations without a checkpoint -/

section Normal
variable {d : Device} {mem : Bitmap} {size id : Nat} {type : QueueType}

def noBits : Bits :=
  { sdma := ∅, xgmiSdma := ∅, doorbell := ∅, queueSlot := ∅ }

theorem reached_foldl (f : Bits → Bitmap) (g : Bitmap → Nat → Bitmap) (op : Nat → Op)
    (hstep : ∀ s j, f (allocStep d s (op j)).bits = g (f s.bits) j) (js : List Nat) :
    ∃ b, Reached d b ∧ f b = js.foldl g (f (allocInit d noBits).bits) := by
  have hrun : ∀ s : Alloc, f (run (allocStep d) s (js.map op)).bits = js.foldl g (f s.bits) := by
    induction js with
    | nil => exact fun _ => rfl
    | cons j js ih =>
      intro s
      rw [map_cons, run_cons, ih, hstep, foldl_cons]
  exact ⟨_, ⟨noBits, js.map op, rfl⟩, hrun _⟩

theorem foldl_takeSdma (js : List Nat) : ∀ (mem : Bitmap), id ∈ mem → id < maxSdmaQueues →
    id ∉ js → ∀ i, i ∈ js.foldl (fun mem j => (takeSdma mem size (some j)).1) mem ↔
      i ∈ mem ∧ i ∉ js := by
  induction js with
  | nil => simp
  | cons j js ih =>
    intro mem hid hlt hnot i
    rw [mem_cons, not_or] at hnot
    have htake : (takeSdma mem size (some j)).1 = mem.erase j := by
      unfold takeSdma
      rw [if_neg (Finset.ne_empty_of_mem (Finset.mem_filter.mpr ⟨hid, hlt⟩))]
      dsimp only
      split
      · next hj => exact (Finset.erase_eq_of_notMem hj).symm
      · rfl
    rw [foldl_cons, htake, ih _ (Finset.mem_erase.mpr ⟨hnot.1, hid⟩) hlt hnot.2,
      Finset.mem_erase, mem_cons, not_or]
    exact ⟨fun ⟨⟨h1, h2⟩, h3⟩ => ⟨h2, h1, h3⟩, fun ⟨h2, h1, h3⟩ => ⟨⟨h1, h2⟩, h3⟩⟩

theorem foldl_insert {g : Bitmap → Nat → Bitmap} {P : Nat → Prop}
    (hkeep : ∀ mem j, mem ⊆ g mem j) (honly : ∀ mem j, g mem j ⊆ insert j mem)
    (hadd : ∀ mem j, P j → j ∈ g mem j) (js : List Nat) : ∀ mem : Bitmap,
    mem ⊆ js.foldl g mem ∧ (∀ j ∈ js, P j → j ∈ js.foldl g mem) ∧
      ∀ i ∈ js.foldl g mem, i ∈ mem ∨ i ∈ js := by
  induction js with
  | nil => exact fun mem => ⟨Finset.Subset.refl mem, nofun, fun i hi => .inl hi⟩
  | cons j js ih =>
    intro mem
    obtain ⟨hmem, hjs, hback⟩ := ih (g mem j)
    rw [foldl_cons]
    refine ⟨(hkeep mem j).trans hmem, fun i hi hP => ?_, fun i hi => ?_⟩
    · rcases mem_cons.mp hi with rfl | hi
      · exact hmem (hadd mem i hP)
      · exact hjs i hi hP
    · rcases hback i hi with hi | hi
      · rcases Finset.mem_insert.mp (honly mem j hi) with rfl | hi
        · exact .inr mem_cons_self
        · exact .inl hi
      · exact .inr (mem_cons_of_mem j hi)

theorem takeSdma_last (hid : id ∈ mem) (hlt : id < size) (hmax : id < maxSdmaQueues)
    (honly : ∀ i ∈ mem, i < size → i = id) : (takeSdma mem size none).2 = .ok id := by
  unfold takeSdma
  rw [if_neg (Finset.ne_empty_of_mem (Finset.mem_filter.mpr ⟨hid, hmax⟩))]
  obtain ⟨hmem, hfirst⟩ := findFirstBit_mem hid hlt
  dsimp only
  rw [honly _ hmem hfirst]

theorem findNextZeroBit_last (hid : id ∉ mem) (hlt : id < size)
    (honly : ∀ i < size, i ≠ id → i ∈ mem) : findNextZeroBit mem size 0 = id := by
  have hle : findNextZeroBit mem size 0 ≤ id := by
    by_contra hgt
    exact hid (findNextZeroBit_set (Nat.zero_le id) (not_le.mp hgt) (Nat.zero_lt_of_lt hlt))
  by_contra hne
  exact findNextZeroBit_clear (hle.trans_lt hlt) (honly _ (hle.trans_lt hlt) hne)

def othersBelow (size id : Nat) : List Nat :=
  (range size).filter (· ≠ id)

theorem mem_othersBelow {j : Nat} : j ∈ othersBelow size id ↔ j < size ∧ j ≠ id := by
  simp [othersBelow]

theorem not_mem_othersBelow : id ∉ othersBelow size id :=
  fun h => (mem_othersBelow.mp h).2 rfl

theorem takeSdma_others (hid : id ∈ mem) (hlt : id < size) (hsize : size ≤ maxSdmaQueues) :
    (takeSdma ((othersBelow size id).foldl (fun mem j => (takeSdma mem size (some j)).1) mem)
      size none).2 = .ok id := by
  have hmem (i : Nat) :
      i ∈ (othersBelow size id).foldl (fun mem j => (takeSdma mem size (some j)).1) mem ↔
        i ∈ mem ∧ i ∉ othersBelow size id :=
    foldl_takeSdma _ mem hid (hlt.trans_le hsize) not_mem_othersBelow i
  refine takeSdma_last ((hmem id).mpr ⟨hid, not_mem_othersBelow⟩) hlt (hlt.trans_le hsize)
    fun i hi hi' => ?_
  by_contra hne
  exact ((hmem i).mp hi).2 (mem_othersBelow.mpr ⟨hi', hne⟩)

theorem findNextZeroBit_others {g : Bitmap → Nat → Bitmap} (hkeep : ∀ mem j, mem ⊆ g mem j)
    (honly : ∀ mem j, g mem j ⊆ insert j mem) (hadd : ∀ mem j, j < size → j ∈ g mem j)
    (hid : id ∉ mem) (hlt : id < size) :
    findNextZeroBit ((othersBelow size id).foldl g mem) size 0 = id := by
  obtain ⟨-, hothers, hfold⟩ := foldl_insert hkeep honly hadd (othersBelow size id) mem
  refine findNextZeroBit_last (fun h => ?_) hlt fun i hi hne =>
    hothers i (mem_othersBelow.mpr ⟨hi, hne⟩) hi
  exact hid ((hfold id h).resolve_right not_mem_othersBelow)

theorem sdmaBits_could (f : Bits → Bitmap) (type : QueueType) {size : Nat}
    (hstep : ∀ s j, f (allocStep d s (.allocateSdma type (some j))).bits =
      (takeSdma (f s.bits) size (some j)).1)
    (hinit : id ∈ f (allocInit d noBits).bits) (hlt : id < size) (hsize : size ≤ maxSdmaQueues) :
    ∃ b, Reached d b ∧ (takeSdma (f b) size none).2 = .ok id := by
  obtain ⟨b, hb, hfold⟩ := reached_foldl f (fun mem j => (takeSdma mem size (some j)).1)
    (fun j => .allocateSdma type (some j)) hstep (othersBelow size id)
  exact ⟨b, hb, hfold ▸ takeSdma_others hinit hlt hsize⟩

theorem sdma_could (hlt : id < d.numSdmaQueues) (hres : id ∉ d.reservedSdma) :
    ∃ b, Reached d b ∧ (allocateSdmaQueue d b .sdma none).2 = .ok (some (sdmaIds d id)) := by
  obtain ⟨b, hb, htake⟩ := sdmaBits_could Bits.sdma .sdma (fun s j => by
    unfold allocStep allocateSdmaQueue
    dsimp only
    cases (takeSdma s.bits.sdma d.numSdmaQueues (some j)).2 <;> rfl)
    (mem_splice.mpr (.inl ⟨hlt.trans_le d.sdma_le, by simpa using ⟨hlt, hres⟩⟩)) hlt d.sdma_le
  exact ⟨b, hb, by simp only [allocateSdmaQueue, htake, Except.map]⟩

theorem xgmiSdma_could (hlt : id < d.numXgmiSdmaQueues) :
    ∃ b, Reached d b ∧
      (allocateSdmaQueue d b .sdmaXgmi none).2 = .ok (some (xgmiSdmaIds d id)) := by
  obtain ⟨b, hb, htake⟩ := sdmaBits_could Bits.xgmiSdma .sdmaXgmi (fun s j => by
    unfold allocStep allocateSdmaQueue
    dsimp only
    cases (takeSdma s.bits.xgmiSdma d.numXgmiSdmaQueues (some j)).2 <;> rfl)
    (mem_splice.mpr (.inl ⟨hlt.trans_le d.xgmi_le, by simpa using hlt⟩)) hlt d.xgmi_le
  exact ⟨b, hb, by simp only [allocateSdmaQueue, htake, Except.map]⟩

theorem doorbell_could (queueId : Nat) (ids : SdmaIds) (hcp : d.soc15 = true ∧ isSdma type = false)
    (hlt : id < maxQueuesPerProcess) (hres : id ∉ d.reservedDoorbells) :
    ∃ b, Reached d b ∧ (allocateDoorbell d b type queueId ids none).2 = .ok id := by
  have hsoc : ¬d.soc15 = false := fun h => Bool.false_ne_true (h.symm.trans hcp.1)
  have hsdma : ¬isSdma type = true := fun h => Bool.false_ne_true (hcp.2.symm.trans h)
  have hstep : ∀ s j, (allocStep d s (.allocateDoorbell type queueId ids (some j))).bits.doorbell =
      insert j s.bits.doorbell := by
    intro s j
    unfold allocStep allocateDoorbell testAndSetBit
    dsimp only
    rw [if_neg hsoc, if_neg hsdma]
    split
    · next heq => exact (congrArg (·.1.doorbell) heq).symm
    · next heq => exact (congrArg (·.1.doorbell) heq).symm
  obtain ⟨b, hb, hdoorbell⟩ := reached_foldl Bits.doorbell (fun mem j => insert j mem)
    (fun j => .allocateDoorbell type queueId ids (some j)) hstep
    (othersBelow maxQueuesPerProcess id)
  have hclear : id ∉ (allocInit d noBits).bits.doorbell := by
    intro hid
    rcases mem_splice.mp hid with ⟨-, hinit⟩ | ⟨hge, -⟩
    · exact hres hinit
    · exact absurd hlt (not_lt.mpr hge)
  have hfound := findNextZeroBit_others (g := fun mem j => insert j mem)
    (fun mem j => Finset.subset_insert j mem) (fun mem j => Finset.Subset.refl _)
    (fun mem j _ => Finset.mem_insert_self j mem) hclear hlt
  rw [← hdoorbell] at hfound
  refine ⟨b, hb, ?_⟩
  unfold allocateDoorbell
  rw [if_neg hsoc, if_neg hsdma]
  dsimp only
  rw [hfound, if_neg (not_le.mpr hlt)]

theorem slot_could (d : Device) (hlt : id < maxQueuesPerProcess) :
    ∃ b, Reached d b ∧ (findAvailableQueueSlot b).2 = .ok id := by
  have hstep : ∀ s j, (allocStep d s (.assignSlot j)).bits.queueSlot =
      (fun mem j => if maxQueuesPerProcess ≤ j then mem else insert j mem) s.bits.queueSlot j := by
    intro s j
    unfold allocStep assignQueueSlotByQid testAndSetBit
    dsimp only
    split
    · rfl
    · rfl
  obtain ⟨b, hb, hslot⟩ := reached_foldl Bits.queueSlot
    (fun mem j => if maxQueuesPerProcess ≤ j then mem else insert j mem) .assignSlot hstep
    (othersBelow maxQueuesPerProcess id)
  have hclear : id ∉ (allocInit d noBits).bits.queueSlot := by
    intro hid
    rcases mem_splice.mp hid with ⟨-, hinit⟩ | ⟨hge, -⟩
    · exact absurd hinit (Finset.notMem_empty id)
    · exact absurd hlt (not_lt.mpr hge)
  have hfound := findNextZeroBit_others
    (g := fun mem j => if maxQueuesPerProcess ≤ j then mem else insert j mem)
    (fun mem j => by
      split
      · exact Finset.Subset.refl _
      · exact Finset.subset_insert j mem)
    (fun mem j => by
      split
      · exact Finset.subset_insert j mem
      · exact Finset.Subset.refl _)
    (fun mem j hj => by
      rw [if_neg (not_le.mpr hj)]
      exact Finset.mem_insert_self j mem) hclear hlt
  rw [← hslot] at hfound
  refine ⟨b, hb, ?_⟩
  unfold findAvailableQueueSlot
  dsimp only
  rw [hfound, if_neg (not_le.mpr hlt)]

end Normal

/-! ## Restored ids -/

def SdmaIds.InRange (d : Device) (type : QueueType) (ids : SdmaIds) : Prop :=
  match type with
  | .sdma => ids.sdmaId < d.numSdmaQueues ∧ ids.sdmaId ∉ d.reservedSdma ∧
      ids.engineId < d.sdmaEngines ∧ ids.queueId < d.queuesPerEngine
  | .sdmaXgmi => ids.sdmaId < d.numXgmiSdmaQueues ∧ d.sdmaEngines ≤ ids.engineId ∧
      ids.engineId < d.sdmaEngines + d.xgmiEngines ∧ ids.queueId < d.queuesPerEngine
  | _ => False

def Bits.sdmaMap (b : Bits) (type : QueueType) : Bitmap :=
  if type = .sdmaXgmi then b.xgmiSdma else b.sdma

/-- `allocate_sdma_queue` with an id to restore fails and changes nothing, or takes a free bit
of a queue that the device has, which it could have found in a state of the allocators. -/
def SdmaSafe (d : Device) (b : Bits) (type : QueueType) (id : Nat) : Prop :=
  match allocateSdmaQueue d b type (some id) with
  | (b', .ok (some ids)) =>
    ids.InRange d type ∧ ids.sdmaId ∈ b.sdmaMap type ∧
      b'.sdmaMap type = (b.sdmaMap type).erase ids.sdmaId ∧
      ∃ b0, Reached d b0 ∧ (allocateSdmaQueue d b0 type none).2 = .ok (some ids)
  | (b', _) => b' = b

/-- `allocate_doorbell` with an id to restore fails and changes nothing, or gives a doorbell that
it could have found, which for a CP queue on SOC15 was free in the bitmap. -/
def DoorbellSafe (d : Device) (b : Bits) (type : QueueType) (queueId : Nat) (ids : SdmaIds)
    (id : Nat) : Prop :=
  match allocateDoorbell d b type queueId ids (some id) with
  | (b', .ok id') =>
    (d.soc15 = true ∧ isSdma type = false → id' < maxQueuesPerProcess ∧ id' ∉ b.doorbell ∧
      b'.doorbell = insert id' b.doorbell) ∧
      ∃ b0, Reached d b0 ∧ (allocateDoorbell d b0 type queueId ids none).2 = .ok id'
  | (b', .error _) => b' = b

/-- `assign_queue_slot_by_qid` fails and changes nothing, or takes a free slot that could have
been found. -/
def SlotSafe (d : Device) (b : Bits) (qid : Nat) : Prop :=
  match assignQueueSlotByQid b qid with
  | (b', .ok qid') =>
    qid' < maxQueuesPerProcess ∧ qid' ∉ b.queueSlot ∧ b'.queueSlot = insert qid' b.queueSlot ∧
      ∃ b0, Reached d b0 ∧ (findAvailableQueueSlot b0).2 = .ok qid'
  | (b', .error _) => b' = b

/-- The id is one of the bitmap, or the bit so far after it is clear, or no bit of the bitmap is
set. -/
def SdmaIdOk (b : Bits) (type : QueueType) (id : Nat) : Prop :=
  isSdma type = true →
    id < maxSdmaQueues ∨ id ∉ b.sdmaMap type ∨
      (b.sdmaMap type).filter (· < maxSdmaQueues) = ∅

def DoorbellIdOk (d : Device) (b : Bits) (type : QueueType) (id : Nat) : Prop :=
  d.soc15 = true ∧ isSdma type = false → id < maxQueuesPerProcess ∨ id ∈ b.doorbell

section Restore
variable {d : Device} {b : Bits} {mem : Bitmap} {size id : Nat} {type : QueueType}

theorem takeSdma_restore (mem : Bitmap) (size id : Nat) :
    ((∃ e, takeSdma mem size (some id) = (mem, .error e)) ∧
      (id ∉ mem ∨ mem.filter (· < maxSdmaQueues) = ∅)) ∨
    (takeSdma mem size (some id) = (mem.erase id, .ok id) ∧ id ∈ mem ∧
      mem.filter (· < maxSdmaQueues) ≠ ∅) := by
  unfold takeSdma
  by_cases hempty : mem.filter (· < maxSdmaQueues) = ∅
  · rw [if_pos hempty]
    exact .inl ⟨⟨_, rfl⟩, .inr hempty⟩
  rw [if_neg hempty]
  by_cases hid : id ∉ mem
  · exact .inl ⟨⟨_, if_pos hid⟩, .inl hid⟩
  · exact .inr ⟨if_neg hid, not_not.mp hid, hempty⟩

theorem div_lt_of_lt_mul {engines queues : Nat} (h : id < engines * queues) :
    id % engines < engines ∧ id / engines < queues := by
  have hpos : 0 < engines := by
    by_contra hzero
    rw [Nat.eq_zero_of_not_pos hzero, zero_mul] at h
    exact Nat.not_lt_zero id h
  exact ⟨Nat.mod_lt id hpos, Nat.div_lt_of_lt_mul h⟩

theorem sdma_safe_iff (h : b.Ok d) (type : QueueType) (id : Nat) :
    SdmaSafe d b type id ↔ SdmaIdOk b type id := by
  unfold SdmaSafe SdmaIdOk allocateSdmaQueue
  cases type with
  | sdma =>
    dsimp only
    have hmap : b.sdmaMap .sdma = b.sdma := rfl
    rw [hmap]
    rcases takeSdma_restore b.sdma d.numSdmaQueues id with ⟨⟨e, heq⟩, hok⟩ | ⟨heq, hid, hne⟩
    · rw [heq]
      exact iff_of_true rfl fun _ => .inr hok
    · rw [heq]
      constructor
      · rintro ⟨⟨hlt, -⟩, -⟩ -
        exact .inl (lt_of_lt_of_le hlt d.sdma_le)
      · intro hok
        have hlt := (hok rfl).resolve_right fun h' => h'.elim (fun hnot => hnot hid) hne
        obtain ⟨hnum, hres⟩ := h.sdma id hid hlt
        obtain ⟨hengine, hqueue⟩ := div_lt_of_lt_mul hnum
        exact ⟨⟨hnum, hres, hengine, hqueue⟩, hid, rfl, sdma_could hnum hres⟩
  | sdmaXgmi =>
    dsimp only
    have hmap : b.sdmaMap .sdmaXgmi = b.xgmiSdma := rfl
    rw [hmap]
    rcases takeSdma_restore b.xgmiSdma d.numXgmiSdmaQueues id with ⟨⟨e, heq⟩, hok⟩ | ⟨heq, hid, hne⟩
    · rw [heq]
      exact iff_of_true rfl fun _ => .inr hok
    · rw [heq]
      constructor
      · rintro ⟨⟨hlt, -⟩, -⟩ -
        exact .inl (lt_of_lt_of_le hlt d.xgmi_le)
      · intro hok
        have hlt := (hok rfl).resolve_right fun h' => h'.elim (fun hnot => hnot hid) hne
        have hnum := h.xgmiSdma id hid hlt
        obtain ⟨hengine, hqueue⟩ := div_lt_of_lt_mul hnum
        exact ⟨⟨hnum, Nat.le_add_right _ _, Nat.add_lt_add_left hengine _, hqueue⟩, hid, rfl,
          xgmiSdma_could hnum⟩
  | compute | hiq | diq => exact iff_of_true rfl nofun

theorem doorbell_safe_iff (h : b.Ok d) (type : QueueType) (queueId : Nat) (ids : SdmaIds)
    (id : Nat) : DoorbellSafe d b type queueId ids id ↔ DoorbellIdOk d b type id := by
  have hinit : Reached d (allocInit d noBits).bits := ⟨noBits, [], rfl⟩
  have hfixed : ∀ id' id'' : Nat, (fixedDoorbell b id' (some id)) = (b, .ok id'') → id'' = id' := by
    intro id' id'' heq
    unfold fixedDoorbell at heq
    split at heq
    · cases heq
    · cases heq
      rfl
  unfold DoorbellSafe DoorbellIdOk
  rcases allocateDoorbell_cases d b type queueId ids (some id) with
    ⟨e, heq⟩ | ⟨hfix, id', heq⟩ | ⟨hcp, id', hclear, heq⟩
  · rw [heq]
    refine iff_of_true rfl fun hcp => ?_
    by_contra hnot
    rw [not_or] at hnot
    unfold allocateDoorbell testAndSetBit at heq
    rw [if_neg (by simp [hcp.1]), if_neg (by simp [hcp.2])] at heq
    dsimp only at heq
    rw [decide_eq_false hnot.2, if_neg Bool.false_ne_true] at heq
    cases congrArg Prod.snd heq
  · rw [heq]
    refine iff_of_true ⟨fun hcp => absurd hcp hfix, _, hinit, ?_⟩ fun hcp => absurd hcp hfix
    unfold allocateDoorbell at heq ⊢
    by_cases hsoc : d.soc15 = false
    · rw [if_pos hsoc] at heq ⊢
      rw [hfixed _ _ heq]
      rfl
    rw [if_neg hsoc] at heq ⊢
    by_cases hsdma : isSdma type = true
    · rw [if_pos hsdma] at heq ⊢
      rw [hfixed _ _ heq]
      rfl
    · exact absurd ⟨Bool.not_eq_false _ ▸ hsoc, Bool.not_eq_true _ ▸ hsdma⟩ hfix
  · have hid : id' = id := by
      unfold allocateDoorbell testAndSetBit at heq
      rw [if_neg (by simp [hcp.1]), if_neg (by simp [hcp.2])] at heq
      dsimp only at heq
      split at heq
      · cases congrArg Prod.snd heq
      · exact (Except.ok.inj (congrArg Prod.snd heq)).symm
    subst hid
    rw [heq]
    constructor
    · exact fun hsafe _ => .inl (hsafe.1 hcp).1
    · intro hok
      have hlt := (hok hcp).resolve_right hclear
      exact ⟨fun _ => ⟨hlt, hclear, rfl⟩,
        doorbell_could queueId ids hcp hlt fun hres => hclear (h.doorbell hres)⟩

theorem slot_safe (d : Device) (b : Bits) (qid : Nat) : SlotSafe d b qid := by
  unfold SlotSafe
  rcases assignQueueSlotByQid_cases b qid with ⟨e, heq⟩ | ⟨hlt, hclear, heq⟩
  · rw [heq]
  · rw [heq]
    exact ⟨hlt, hclear, rfl, slot_could d hlt⟩

/-- In every state of the allocators the ids of a checkpoint are restored safely exactly when the
SDMA id and the doorbell meet their conditions. -/
theorem restore_ids_iff (d : Device) (m : Bits) (ops : List Op) (type : QueueType)
    (qid sdmaId doorbellId : Nat) (ids : SdmaIds) :
    let b := (run (allocStep d) (allocInit d m) ops).bits
    SlotSafe d b qid ∧ SdmaSafe d b type sdmaId ∧ DoorbellSafe d b type qid ids doorbellId ↔
      SdmaIdOk b type sdmaId ∧ DoorbellIdOk d b type doorbellId := by
  intro b
  have hok : b.Ok d := Reached.ok ⟨m, ops, rfl⟩
  rw [sdma_safe_iff hok, doorbell_safe_iff hok]
  exact and_iff_right (slot_safe d b qid)

end Restore

/-! ## A doorbell after the bitmap -/

def exSoc15 : Device := { NoHws.exDevice with soc15 := true }

/-- The doorbell 1024 of a compute queue is taken from the memory after the bitmap. -/
theorem restore_ids_broken :
    ¬DoorbellSafe exSoc15 (allocInit exSoc15 noBits).bits .compute 0 (sdmaIds exSoc15 0) 1024 := by
  have hclear : 1024 ∉ (allocInit exSoc15 noBits).bits.doorbell := by
    intro hmem
    rcases mem_splice.mp hmem with ⟨hlt, -⟩ | ⟨-, hmem⟩
    · exact absurd hlt (by decide)
    · exact absurd hmem (Finset.notMem_empty 1024)
  have hreached : Reached exSoc15 (allocInit exSoc15 noBits).bits := ⟨noBits, [], rfl⟩
  generalize (allocInit exSoc15 noBits).bits = b at hclear hreached
  rw [doorbell_safe_iff hreached.ok]
  intro hok
  rcases hok ⟨rfl, rfl⟩ with hlt | hmem
  · exact absurd hlt (by decide)
  · exact hclear hmem

end Amdkfd.RestoreIds

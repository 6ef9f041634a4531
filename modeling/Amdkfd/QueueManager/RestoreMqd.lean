import Amdkfd.GttSubAllocator
import Amdkfd.Lib.Bytes
import Amdkfd.QueueManager.Model

/-!
# Restoring the MQD of a compute queue

`kfd_criu_restore_queue`, with `allocate_mqd` and `restore_mqd` of `kfd_mqd_manager_v9.c`. The
size of the MQD blob and of the control stack blob come from user space, that of the MQD buffer
from the properties of the queue, and what is copied is `sizeof(struct v9_mqd)` bytes and the
control stack. Memory has no end here, so that a copy past a buffer is one that is recorded.
-/

namespace Amdkfd.RestoreMqd

open Lib Bool Finset
open QueueManager (QueueType)
open GttSubAllocator

/-! ## Model -/

abbrev Mem := Nat → UInt8

/-- Where `restore_mqd` reads and writes. -/
inductive Buffer
  | mqdBlob
  | ctlStackBlob
  | mqdBuffer
  deriving DecidableEq, Repr

structure Access where
  buffer : Buffer
  start : Nat
  len : Nat
  deriving DecidableEq, Repr

def Access.bytes (a : Access) : Finset Nat := Finset.Ico a.start (a.start + a.len)

/-- The memory from the MQD buffer on, and all accesses made so far. -/
structure Machine where
  mem : Mem
  accesses : List Access

def Mem.write (mem : Mem) (start : Nat) (src : Mem) (n : Nat) : Mem := fun i =>
  if start ≤ i ∧ i < start + n then src (i - start) else mem i

def Machine.memcpy (m : Machine) (start : Nat) (buffer : Buffer) (src : Mem) (n : Nat) : Machine :=
  { mem := m.mem.write start src n
    accesses := m.accesses ++ [⟨buffer, 0, n⟩, ⟨.mqdBuffer, start, n⟩] }

def Machine.store32 (m : Machine) (start value : Nat) : Machine :=
  { mem := m.mem.write start (fun i => (toBytes 4 value).getD i 0) 4
    accesses := m.accesses ++ [⟨.mqdBuffer, start, 4⟩] }

/-- `struct v9_mqd`, which is not part of the driver's sources: its size, the offset of
`cp_hqd_pq_doorbell_control` and the shift of the doorbell offset in it. `allocate_mqd` has a
page for the MQD. -/
structure Layout where
  pageShift : Nat
  mqdSize : Nat
  doorbellControl : Nat
  doorbellShift : Nat
  pageShift_le : 12 ≤ pageShift ∧ pageShift ≤ 16
  mqdSize_le : mqdSize ≤ 2 ^ pageShift
  doorbellControl_le : doorbellControl + 4 ≤ mqdSize

def Layout.pageSize (l : Layout) : Nat := 2 ^ l.pageShift

def numXcc (xccMask : Bitmap) : Nat := (xccMask.filter (· < 16)).card

/-- The fields of `struct kfd_node` and of its `struct kfd_dev` that `allocate_mqd` uses. -/
structure Node where
  cwsrEnabled : Bool
  xccMask : Bitmap
  gtt : GttSa
  xcc_pos : 0 < numXcc xccMask
  chunk_eq : gtt.gttSaChunkSize = 512

/-- The fields of `struct kfd_criu_queue_priv_data` that the sizes depend on. -/
structure QueueData where
  gpuId : UInt32
  type : UInt32
  ctlStackSize : UInt32
  mqdSize : UInt32
  deriving DecidableEq, Repr

/-- What the kernel answers to a call. `checks` are those of `pqm_create_queue` and
`create_queue` before `allocate_mqd`, with the doorbell offset of the queue. -/
structure Env where
  kmallocData : Bool
  userData : Option QueueData
  kmallocExtra : Bool
  userExtra : Option Mem
  pdd : UInt32 → Bool
  checks : Except Errno Nat
  kzalloc : Bool
  allocGtt : Bool
  mem : Mem

def queueType (type : UInt32) : Option QueueType :=
  match type.toNat with
  | 0 => some .compute
  | 1 => some .sdma
  | 2 => some .hiq
  | 3 => some .diq
  | 4 => some .sdmaXgmi
  | _ => none

/-- `ALIGN` of a `size_t`. -/
def align (x a : Nat) : Nat := (x + a - 1) / a * a

def alignU32 (x a : Nat) : Nat := (x + a - 1) % 2 ^ 32 / a * a

def allocateMqd (l : Layout) (n : Node) (e : Env) (type : QueueType) (ctlStackSize : Nat) :
    Option Nat :=
  if n.cwsrEnabled ∧ type = .compute then
    if e.kzalloc ∧ e.allocGtt then
      some ((alignU32 ctlStackSize l.pageSize + align l.mqdSize l.pageSize) * numXcc n.xccMask)
    else none
  else
    match (kfdGttSaAllocate n.gtt e.kzalloc l.mqdSize).2 with
    | .ok obj => some ((obj.rangeEnd - obj.rangeStart + 1) * n.gtt.gttSaChunkSize)
    | .error _ => none

def restoreMqd (l : Layout) (mem : Mem) (doorbellOff : Nat) (mqdSrc ctlStackSrc : Mem)
    (ctlStackSize : Nat) : Machine :=
  let m : Machine := { mem := mem, accesses := [] }
  let m := m.memcpy 0 .mqdBlob mqdSrc l.mqdSize
  let m := m.memcpy l.pageSize .ctlStackBlob ctlStackSrc ctlStackSize
  m.store32 l.doorbellControl (doorbellOff * 2 ^ l.doorbellShift)

/-- A call of `restore_mqd`, and the size of its MQD buffer. -/
structure Restored where
  q : QueueData
  bufSize : Nat
  machine : Machine

def createQueue (l : Layout) (n : Node) (e : Env) (q : QueueData) (mqd ctlStack : Mem) :
    Except Errno Restored :=
  match e.checks with
  | .error err => .error err
  | .ok doorbellOff =>
    match allocateMqd l n e .compute q.ctlStackSize.toNat with
    | none => .error .enomem
    | some bufSize =>
      .ok
        { q := q
          bufSize := bufSize
          machine := restoreMqd l e.mem doorbellOff mqd ctlStack q.ctlStackSize.toNat }

/-- `pqm_create_queue`. SDMA queues and DIQs have no `struct v9_mqd` restored. -/
def pqmCreateQueue (l : Layout) (n : Node) (e : Env) (q : QueueData) (mqd ctlStack : Mem) :
    Except Errno (Option Restored) :=
  match queueType q.type with
  | some .compute => (createQueue l n e q mqd ctlStack).map some
  | some .sdma | some .sdmaXgmi | some .diq => .ok none
  | some .hiq | none => .error .einval

/-- `kfd_criu_restore_queue`. `privSize` is the size of `struct kfd_criu_queue_priv_data`. -/
def kfdCriuRestoreQueue (l : Layout) (n : Node) (privSize privDataOffset maxPrivDataSize : UInt64)
    (e : Env) : Except Errno (Option Restored) :=
  if maxPrivDataSize < privDataOffset + privSize then .error .einval
  else if e.kmallocData = false then .error .enomem
  else
    match e.userData with
    | none => .error .efault
    | some q =>
      let extraSize := q.ctlStackSize.toUInt64 + q.mqdSize.toUInt64
      if maxPrivDataSize < privDataOffset + privSize + extraSize then .error .einval
      else if e.kmallocExtra = false then .error .enomem
      else
        match e.userExtra with
        | none => .error .efault
        | some extra =>
          if e.pdd q.gpuId = false then .error .einval
          else pqmCreateQueue l n e q extra (fun i => extra (q.mqdSize.toNat + i))

/-! ## Specification -/

def Restored.size (r : Restored) : Buffer → Nat
  | .mqdBlob => r.q.mqdSize.toNat
  | .ctlStackBlob => r.q.ctlStackSize.toNat
  | .mqdBuffer => r.bufSize

def Restored.InBounds (r : Restored) : Prop :=
  ∀ a ∈ r.machine.accesses, ∀ i ∈ a.bytes, i < r.size a.buffer

/-- `allocate_mqd` has a buffer for the queue. -/
def Allocated (l : Layout) (n : Node) (e : Env) : Prop :=
  e.kzalloc ∧
    if n.cwsrEnabled then e.allocGtt = true
    else ∃ a, FreeRun n.gtt a (chunksFor n.gtt l.mqdSize)

/-- The call restores an MQD from the data `q`: no check of it fails, and the queue is a compute
queue. -/
structure Accepts (l : Layout) (n : Node) (privSize privDataOffset maxPrivDataSize : UInt64)
    (e : Env) (q : QueueData) : Prop where
  data : privDataOffset + privSize ≤ maxPrivDataSize
  kmallocData : e.kmallocData
  userData : e.userData = some q
  extra : privDataOffset + privSize + (q.ctlStackSize.toUInt64 + q.mqdSize.toUInt64) ≤
    maxPrivDataSize
  kmallocExtra : e.kmallocExtra
  userExtra : e.userExtra.isSome
  pdd : e.pdd q.gpuId
  compute : q.type = 0
  checks : e.checks.isOk
  allocated : Allocated l n e

/-- The MQD blob has all of the MQD. With CWSR the control stack is one that 32 bits have the
aligned size of, without CWSR there is none. -/
def Fits (l : Layout) (n : Node) (q : QueueData) : Prop :=
  l.mqdSize ≤ q.mqdSize.toNat ∧
    if n.cwsrEnabled then q.ctlStackSize.toNat ≤ 2 ^ 32 - l.pageSize
    else q.ctlStackSize = 0

def reserved (l : Layout) (n : Node) (ctlStackSize : Nat) : Nat :=
  if n.cwsrEnabled then
    (alignU32 ctlStackSize l.pageSize + align l.mqdSize l.pageSize) * numXcc n.xccMask
  else chunksFor n.gtt l.mqdSize * 512

/-! ## The copies -/

@[simp] theorem Access.mem_bytes {a : Access} {i : Nat} :
    i ∈ a.bytes ↔ a.start ≤ i ∧ i < a.start + a.len := by
  rw [Access.bytes, mem_Ico]

section
variable (l : Layout) (mem : Mem) (doorbellOff : Nat) (mqdSrc ctlStackSrc : Mem)
  (ctlStackSize : Nat)

theorem restoreMqd_accesses :
    (restoreMqd l mem doorbellOff mqdSrc ctlStackSrc ctlStackSize).accesses =
      [⟨.mqdBlob, 0, l.mqdSize⟩, ⟨.mqdBuffer, 0, l.mqdSize⟩,
        ⟨.ctlStackBlob, 0, ctlStackSize⟩, ⟨.mqdBuffer, l.pageSize, ctlStackSize⟩,
        ⟨.mqdBuffer, l.doorbellControl, 4⟩] := rfl

end

/-! ## The buffer -/

theorem Layout.pageSize_bounds (l : Layout) :
    4096 ≤ l.pageSize ∧ l.pageSize ≤ 65536 ∧ 512 ∣ l.pageSize := by
  obtain ⟨h12, h16⟩ := l.pageShift_le
  have hlow : 2 ^ 12 ≤ 2 ^ l.pageShift := Nat.pow_le_pow_right (by decide) h12
  have hhigh : 2 ^ l.pageShift ≤ 2 ^ 16 := Nat.pow_le_pow_right (by decide) h16
  have hdvd : 2 ^ 9 ∣ 2 ^ l.pageShift := Nat.pow_dvd_pow 2 (by omega)
  exact ⟨hlow, hhigh, hdvd⟩

theorem Layout.mqdSize_pos (l : Layout) : 0 < l.mqdSize := by
  have := l.doorbellControl_le
  omega

theorem align_mqdSize (l : Layout) : align l.mqdSize l.pageSize = l.pageSize := by
  have hpos := l.mqdSize_pos
  have hle : l.mqdSize ≤ l.pageSize := l.mqdSize_le
  have hone : (l.mqdSize + l.pageSize - 1) / l.pageSize = 1 :=
    Nat.div_eq_of_lt_le (by omega) (by omega)
  rw [align, hone, one_mul]

theorem le_alignU32 {x a : Nat} (ha : 0 < a) (h : x + a ≤ 2 ^ 32) : x ≤ alignU32 x a := by
  have hmod : (x + a - 1) % 2 ^ 32 = x + a - 1 := Nat.mod_eq_of_lt (by omega)
  have hdiv := Nat.div_add_mod (x + a - 1) a
  have hlt := Nat.mod_lt (x + a - 1) ha
  rw [alignU32, hmod, mul_comm]
  omega

/-- The sum wraps around, to less than `a`. -/
theorem alignU32_wrap {x a : Nat} (hx : x < 2 ^ 32) (ha : a ≤ 2 ^ 32) (h : 2 ^ 32 < x + a) :
    alignU32 x a = 0 := by
  have hmod : (x + a - 1) % 2 ^ 32 = x + a - 1 - 2 ^ 32 := by
    rw [Nat.mod_eq_sub_mod (by omega), Nat.mod_eq_of_lt (by omega)]
  rw [alignU32, hmod, Nat.div_eq_of_lt (by omega), zero_mul]

theorem numXcc_le (xccMask : Bitmap) : numXcc xccMask ≤ 16 := by
  have hsub : xccMask.filter (· < 16) ⊆ Finset.range 16 := fun i hi =>
    mem_range.mpr (mem_filter.mp hi).2
  exact (card_le_card hsub).trans_eq (card_range 16)

theorem chunks_bounds (l : Layout) (n : Node) :
    l.mqdSize ≤ chunksFor n.gtt l.mqdSize * 512 ∧ chunksFor n.gtt l.mqdSize * 512 ≤ l.pageSize := by
  obtain ⟨-, -, k, hk⟩ := l.pageSize_bounds
  have hle : l.mqdSize ≤ l.pageSize := l.mqdSize_le
  rw [chunksFor, n.chunk_eq]
  omega

/-- The MQD buffer has room for the MQD, and for the control stack one page after it if that
is not empty. -/
def FitsIn (l : Layout) (ctlStackSize bufSize : Nat) : Prop :=
  l.mqdSize ≤ bufSize ∧ (ctlStackSize ≠ 0 → l.pageSize + ctlStackSize ≤ bufSize)

theorem fitsIn_reserved_iff (l : Layout) (n : Node) {ctlStackSize : Nat}
    (h32 : ctlStackSize < 2 ^ 32) :
    FitsIn l ctlStackSize (reserved l n ctlStackSize) ↔
      if n.cwsrEnabled then ctlStackSize ≤ 2 ^ 32 - l.pageSize else ctlStackSize = 0 := by
  obtain ⟨hlow, hhigh, -⟩ := l.pageSize_bounds
  have hmqd : l.mqdSize ≤ l.pageSize := l.mqdSize_le
  unfold reserved FitsIn
  split
  · have hxcc := n.xcc_pos
    have hxcc16 := numXcc_le n.xccMask
    rw [align_mqdSize]
    constructor
    · -- with a sum that wraps around, only the pages of the MQDs are reserved
      rintro ⟨-, hstack⟩
      by_contra hwrap
      have hbuf := hstack (by omega)
      rw [alignU32_wrap h32 (by omega) (by omega), zero_add] at hbuf
      have := Nat.mul_le_mul hhigh hxcc16
      omega
    · intro hle
      have halign : ctlStackSize ≤ alignU32 ctlStackSize l.pageSize :=
        le_alignU32 (by omega) (by omega)
      have := Nat.le_mul_of_pos_right (alignU32 ctlStackSize l.pageSize + l.pageSize) hxcc
      exact ⟨by omega, fun _ => by omega⟩
  · -- the buffer ends before the page of the control stack
    obtain ⟨hin, hpage⟩ := chunks_bounds l n
    constructor
    · rintro ⟨-, hstack⟩
      by_contra hne
      have := hstack hne
      omega
    · intro hzero
      exact ⟨hin, fun hne => absurd hzero hne⟩

/-! ## Restores -/

variable {l : Layout} {n : Node} {e : Env}

theorem allocateMqd_iff {ctlStackSize bufSize : Nat} :
    allocateMqd l n e .compute ctlStackSize = some bufSize ↔
      Allocated l n e ∧ bufSize = reserved l n ctlStackSize := by
  unfold allocateMqd Allocated reserved
  cases hcwsr : n.cwsrEnabled with
  | true =>
    rw [if_pos ⟨rfl, rfl⟩, if_pos rfl, if_pos rfl]
    split
    · next h => simp [h, eq_comm]
    · next h => simp [h]
  | false =>
    rw [if_neg (fun h => Bool.false_ne_true h.1), if_neg Bool.false_ne_true,
      if_neg Bool.false_ne_true]
    have hpos := chunksFor_pos n.gtt l.mqdSize_pos
    obtain ⟨a, hk, -, hrun, -, heq⟩ | ⟨err, heq, hnone⟩ :=
      kfdGttSaAllocate_cases n.gtt e.kzalloc l.mqdSize
    · have hlen : a + chunksFor n.gtt l.mqdSize - 1 - a + 1 = chunksFor n.gtt l.mqdSize := by
        omega
      simp only [heq, memObj, hlen, n.chunk_eq, Option.some.injEq]
      constructor
      · rintro rfl
        exact ⟨⟨hk, a, hrun⟩, rfl⟩
      · rintro ⟨-, rfl⟩
        rfl
    · simp only [heq, reduceCtorEq, false_iff]
      rintro ⟨⟨hk, a, hrun⟩, -⟩
      obtain hzero | hk' | hno := hnone
      · exact absurd hzero (ne_of_gt l.mqdSize_pos)
      · exact absurd hk (by rw [hk']; exact Bool.false_ne_true)
      · exact hno a hrun

variable {q : QueueData} {r : Restored} {mqd ctlStack : Mem}

theorem createQueue_iff :
    createQueue l n e q mqd ctlStack = .ok r ↔
      ∃ doorbellOff, e.checks = .ok doorbellOff ∧ Allocated l n e ∧
        r =
          { q := q
            bufSize := reserved l n q.ctlStackSize.toNat
            machine := restoreMqd l e.mem doorbellOff mqd ctlStack q.ctlStackSize.toNat } := by
  unfold createQueue
  cases hchecks : e.checks with
  | error err => simp
  | ok doorbellOff =>
    cases hmqd : allocateMqd l n e .compute q.ctlStackSize.toNat with
    | none =>
      have hno : ¬ Allocated l n e := fun h => by
        rw [allocateMqd_iff.mpr ⟨h, rfl⟩] at hmqd
        cases hmqd
      simp [hno]
    | some bufSize =>
      obtain ⟨hall, rfl⟩ := allocateMqd_iff.mp hmqd
      simp [hall, eq_comm]

theorem pqmCreateQueue_iff :
    pqmCreateQueue l n e q mqd ctlStack = .ok (some r) ↔
      q.type = 0 ∧ createQueue l n e q mqd ctlStack = .ok r := by
  have htype : queueType q.type = some .compute ↔ q.type = 0 := by
    unfold queueType
    rw [← UInt32.toNat_inj]
    split <;> simp_all
  rw [← htype]
  unfold pqmCreateQueue
  split
  · next h =>
    rw [h]
    cases createQueue l n e q mqd ctlStack <;> simp [Except.map]
  · next h => simp [h]
  · next h => simp [h]
  · next h => simp [h]
  · next h => simp [h]
  · next h => simp [h]

theorem kfdCriuRestoreQueue_iff {privSize privDataOffset maxPrivDataSize : UInt64} :
    kfdCriuRestoreQueue l n privSize privDataOffset maxPrivDataSize e = .ok (some r) ↔
      ∃ q extra doorbellOff, Accepts l n privSize privDataOffset maxPrivDataSize e q ∧
        e.userExtra = some extra ∧ e.checks = .ok doorbellOff ∧
        r =
          { q := q
            bufSize := reserved l n q.ctlStackSize.toNat
            machine := restoreMqd l e.mem doorbellOff extra
              (fun i => extra (q.mqdSize.toNat + i)) q.ctlStackSize.toNat } := by
  constructor
  · intro h
    unfold kfdCriuRestoreQueue at h
    split at h
    · cases h
    split at h
    · cases h
    split at h
    · cases h
    dsimp only at h
    split at h
    · cases h
    split at h
    · cases h
    split at h
    · cases h
    split at h
    · cases h
    next hdata hkdata _ q hq hextra hkextra _ extra huser hpdd =>
    obtain ⟨hcompute, hcreate⟩ := pqmCreateQueue_iff.mp h
    obtain ⟨doorbellOff, hchecks, halloc, hr⟩ := createQueue_iff.mp hcreate
    refine ⟨q, extra, doorbellOff, ?_, huser, hchecks, hr⟩
    exact
      { data := UInt64.not_lt.mp hdata
        kmallocData := by simpa using hkdata
        userData := hq
        extra := UInt64.not_lt.mp hextra
        kmallocExtra := by simpa using hkextra
        userExtra := by rw [huser]; rfl
        pdd := by simpa using hpdd
        compute := hcompute
        checks := by rw [hchecks]; rfl
        allocated := halloc }
  · rintro ⟨q, extra, doorbellOff, ha, huser, hchecks, hr⟩
    unfold kfdCriuRestoreQueue
    rw [if_neg (UInt64.not_lt.mpr ha.data), if_neg (by simp [ha.kmallocData]), ha.userData]
    dsimp only
    rw [if_neg (UInt64.not_lt.mpr ha.extra), if_neg (by simp [ha.kmallocExtra]), huser]
    dsimp only
    rw [if_neg (by simp [ha.pdd])]
    exact pqmCreateQueue_iff.mpr
      ⟨ha.compute, createQueue_iff.mpr ⟨doorbellOff, hchecks, ha.allocated, hr⟩⟩

theorem inBounds_iff {mem : Mem} {doorbellOff : Nat} {bufSize : Nat} :
    Restored.InBounds
        { q := q
          bufSize := bufSize
          machine := restoreMqd l mem doorbellOff mqd ctlStack q.ctlStackSize.toNat } ↔
      l.mqdSize ≤ q.mqdSize.toNat ∧ FitsIn l q.ctlStackSize.toNat bufSize := by
  have hpos := l.mqdSize_pos
  have hdoorbell := l.doorbellControl_le
  unfold Restored.InBounds FitsIn
  dsimp only
  rw [restoreMqd_accesses]
  simp only [List.forall_mem_cons, Access.mem_bytes, Restored.size]
  constructor
  · rintro ⟨hblob, hmqd, -, hstack, -, -⟩
    -- the last byte of each copy
    have h1 := hblob (l.mqdSize - 1) ⟨by omega, by omega⟩
    have h2 := hmqd (l.mqdSize - 1) ⟨by omega, by omega⟩
    refine ⟨by omega, by omega, fun hne => ?_⟩
    have h3 := hstack (l.pageSize + q.ctlStackSize.toNat - 1) ⟨by omega, by omega⟩
    omega
  · rintro ⟨hblob, hmqd, hstack⟩
    refine ⟨fun i hi => by omega, fun i hi => by omega, fun i hi => by omega, fun i hi => ?_,
      fun i hi => by omega, fun a ha => absurd ha List.not_mem_nil⟩
    have := hstack (by omega)
    omega

/-- The restores that stay inside the blobs and the MQD buffer. -/
theorem restore_mqd_inBounds_iff (l : Layout) (n : Node)
    (privSize privDataOffset maxPrivDataSize : UInt64) (e : Env) :
    (∀ r, kfdCriuRestoreQueue l n privSize privDataOffset maxPrivDataSize e = .ok (some r) →
        r.InBounds) ↔
      ∀ q, Accepts l n privSize privDataOffset maxPrivDataSize e q → Fits l n q := by
  have hfits (q : QueueData) :
      l.mqdSize ≤ q.mqdSize.toNat ∧
          FitsIn l q.ctlStackSize.toNat (reserved l n q.ctlStackSize.toNat) ↔
        Fits l n q := by
    rw [fitsIn_reserved_iff l n q.ctlStackSize.toNat_lt, Fits, ← UInt32.toNat_inj]
    rfl
  constructor
  · intro h q ha
    obtain ⟨extra, huser⟩ := Option.isSome_iff_exists.mp ha.userExtra
    obtain ⟨doorbellOff, hchecks⟩ : ∃ d, e.checks = .ok d := by
      cases hc : e.checks with
      | error err => exact absurd ha.checks (by rw [hc]; exact Bool.false_ne_true)
      | ok d => exact ⟨d, rfl⟩
    have hin := h _ (kfdCriuRestoreQueue_iff.mpr
      ⟨q, extra, doorbellOff, ha, huser, hchecks, rfl⟩)
    exact (hfits q).mp (inBounds_iff.mp hin)
  · intro h r hr
    obtain ⟨q, extra, doorbellOff, ha, -, -, rfl⟩ := kfdCriuRestoreQueue_iff.mp hr
    exact inBounds_iff.mpr ((hfits q).mpr (h q ha))

def exLayout : Layout :=
  { pageShift := 12
    mqdSize := 2048
    doorbellControl := 572
    doorbellShift := 2
    pageShift_le := by decide
    mqdSize_le := by decide
    doorbellControl_le := by decide }

def exNode : Node :=
  { cwsrEnabled := true
    xccMask := {0}
    gtt :=
      { gttStartGpuAddr := 0
        gttStartCpuPtr := 0
        gttSaChunkSize := 512
        gttSaNumOfChunks := 8
        gttSaBitmap := ∅
        chunk_pos := by decide }
    xcc_pos := by decide
    chunk_eq := rfl }

def exEnv : Env :=
  { kmallocData := true
    userData := some { gpuId := 0, type := 0, ctlStackSize := 0, mqdSize := 4 }
    kmallocExtra := true
    userExtra := some fun _ => 0
    pdd := fun _ => true
    checks := .ok 0
    kzalloc := true
    allocGtt := true
    mem := fun _ => 0 }

/-- The size of the MQD blob is not compared with the size of the MQD. -/
theorem restore_mqd_broken :
    ¬ ∀ (l : Layout) (n : Node) (privSize privDataOffset maxPrivDataSize : UInt64) (e : Env)
      (r : Restored),
      kfdCriuRestoreQueue l n privSize privDataOffset maxPrivDataSize e = .ok (some r) →
      r.InBounds := by
  intro h
  have hread : 4 ∈ (⟨.mqdBlob, 0, 2048⟩ : Access).bytes := Access.mem_bytes.mpr (by decide)
  have hin := h exLayout exNode 120 0 124 exEnv _ rfl _ List.mem_cons_self 4 hread
  exact absurd hin (by decide)

end Amdkfd.RestoreMqd

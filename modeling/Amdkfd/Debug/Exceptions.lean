import Amdkfd.Basic
import Amdkfd.Lib.Bitmap
import Amdkfd.Lib.Run

/-!
# Debug exceptions

Exceptions of a debugged process are bits in the `exception_status` of a queue, of a
device or of the process. `kfd_dbg_ev_raise` sets them, and four calls of the debugger
report and clear them. The data of a memory violation is kept in a buffer of the device.
A `uint64_t` mask is the set of its bits. The codes of exceptions and the layout of what
is copied to the debugger are those of the UAPI header, and parameters here.
-/

namespace Amdkfd.DebugExceptions

open Lib List Option

/-! ## Model -/

/-- The holder of an exception code, `KFD_DBG_EC_TYPE_IS_QUEUE` and its like. -/
inductive Kind
  | queue
  | device
  | process
  deriving DecidableEq

/-- What the driver takes from the UAPI header: the masks of exceptions, the bit of a
code, the codes that it looks at, the size of the entries of the snapshots, and the bits
of `exception_status` that are in the first bytes of an entry. -/
structure Uapi where
  maskDevice : Bitmap
  maskProcess : Bitmap
  ecBit : Nat → Nat
  kind : Nat → Option Kind
  queueNew : Nat
  memoryViolation : Nat
  processRuntime : Nat
  deviceEntrySize : Nat
  deviceSeen : Nat → Bitmap
  queueEntrySize : Nat
  queueSeen : Nat → Bitmap

/-- `struct queue`. `listed` tells whether it is on `qpd->queues_list`. -/
structure Queue where
  queueId : Nat
  doorbellId : Nat
  dev : Nat
  listed : Bool
  exceptionStatus : Bitmap

/-- `struct kfd_process_device`, by the id of its device. -/
structure Pdd where
  dev : Nat
  exceptionStatus : Bitmap
  vmFaultExcData : Option (List UInt8)
  vmFaultExcDataSize : Nat

/-- `struct kfd_process`. A node of `pqm->queues` for a kernel queue has no user queue. -/
structure Process where
  debugTrapEnabled : Bool
  exceptionEnableMask : Bitmap
  exceptionStatus : Bitmap
  runtimeInfo : List UInt8
  pdds : List Pdd
  queues : List (Option Queue)

/-- A holder of exceptions: a node of `pqm->queues`, a device, or the process. -/
inductive Source
  | queue (i : Nat)
  | device (i : Nat)
  | process
  deriving DecidableEq

def Process.statusOf (p : Process) : Source → Option Bitmap
  | .queue i => (p.queues[i]?).join.map (·.exceptionStatus)
  | .device i => (p.pdds[i]?).map (·.exceptionStatus)
  | .process => some p.exceptionStatus

def Queue.mapStatus (f : Bitmap → Bitmap) (q : Queue) : Queue :=
  { q with exceptionStatus := f q.exceptionStatus }

def Pdd.mapStatus (f : Bitmap → Bitmap) (pdd : Pdd) : Pdd :=
  { pdd with exceptionStatus := f pdd.exceptionStatus }

def Process.mapStatus (p : Process) (f : Bitmap → Bitmap) : Source → Process
  | .queue i => { p with queues := p.queues.modify i (·.map (·.mapStatus f)) }
  | .device i => { p with pdds := p.pdds.modify i (·.mapStatus f) }
  | .process => { p with exceptionStatus := f p.exceptionStatus }

/-- What a call returns: an error, and, if there is none, the bits of each source that the
debugger gets to see, and the information on an exception. -/
structure Answer where
  error : Option Errno
  seen : Source → Bitmap
  info : List UInt8
  infoSize : Nat

def Answer.fail (e : Errno) : Answer :=
  { error := some e, seen := fun _ => ∅, info := [], infoSize := 0 }

def Answer.report (src : Source) (bits : Bitmap) : Answer :=
  { error := none, seen := fun s => if s = src then bits else ∅, info := [], infoSize := 0 }

/-! ## Raising -/

/-- The arguments of `kfd_dbg_ev_raise`, and whether `kmemdup` succeeds. -/
structure RaiseArgs where
  eventMask : Bitmap
  dev : Nat
  sourceId : Nat
  data : List UInt8
  kmemdup : Bool

def Pdd.keepData (pdd : Pdd) (a : RaiseArgs) : Pdd :=
  if pdd.vmFaultExcData = none ∧ a.kmemdup then { pdd with vmFaultExcData := some a.data } else pdd

def kfdDbgEvRaise (u : Uapi) (p : Process) (a : RaiseArgs) : Process × Bool :=
  if p.debugTrapEnabled = false then (p, false)
  else
    let p' :=
      if (a.eventMask ∩ u.maskDevice).Nonempty then
        match p.pdds.findIdx? (·.dev = a.dev) with
        | none => p
        | some i =>
          let p := p.mapStatus (· ∪ (a.eventMask ∩ u.maskDevice)) (.device i)
          if u.ecBit u.memoryViolation ∈ a.eventMask then
            { p with pdds := p.pdds.modify i (·.keepData a) }
          else p
      else if (a.eventMask ∩ u.maskProcess).Nonempty then
        p.mapStatus (· ∪ (a.eventMask ∩ u.maskProcess)) .process
      else
        let target := fun q : Queue =>
          if u.ecBit u.queueNew ∈ a.eventMask then q.queueId else q.doorbellId
        match p.queues.findIdx? (·.any fun q => q.dev = a.dev ∧ target q = a.sourceId) with
        | none => p
        | some i => p.mapStatus (· ∪ a.eventMask) (.queue i)
    (p', (p.exceptionEnableMask ∩ a.eventMask).Nonempty)

/-! ## Queries -/

def Process.reportStatus (p : Process) (clearMask : Bitmap) (src : Source) : Process × Answer :=
  (p.mapStatus (· \ clearMask) src, .report src ((p.statusOf src).getD ∅))

def kfdDbgEvQueryDebugEvent (p : Process) (clearMask : Bitmap) : Process × Answer :=
  if p.debugTrapEnabled = false then (p, .fail .enodata)
  else
    let enabled := fun status : Bitmap => decide (p.exceptionEnableMask ∩ status).Nonempty
    match p.queues.findIdx? (·.any fun q => enabled q.exceptionStatus) with
    | some i => p.reportStatus clearMask (.queue i)
    | none =>
      match p.pdds.findIdx? fun pdd => enabled pdd.exceptionStatus with
      | some i => p.reportStatus clearMask (.device i)
      | none =>
        if enabled p.exceptionStatus then p.reportStatus clearMask .process
        else (p, .fail .eagain)

/-- The arguments of `kfd_dbg_trap_query_exception_info`: whether the addresses are given,
the source and the exception, whether to clear it, the room for the information, and
whether `copy_to_user` succeeds. -/
structure InfoArgs where
  given : Bool
  sourceId : Nat
  code : Nat
  clear : Bool
  infoSize : Nat
  copy : Bool

/-- The source that has the id. The ids of queues are distinct, so the order of the search
does not matter. -/
def Process.infoSource (p : Process) (sourceId : Nat) : Kind → Option Source
  | .queue =>
    (p.queues.findIdx? (·.any fun q => q.listed ∧ q.queueId = sourceId)).map .queue
  | .device => (p.pdds.findIdx? (·.dev = sourceId)).map .device
  | .process => some .process

def Process.clearInfo (u : Uapi) (p : Process) (a : InfoArgs) (src : Source) : Process :=
  if a.clear then p.mapStatus (· \ {u.ecBit a.code}) src else p

def Process.freeData (p : Process) (a : InfoArgs) : Source → Process
  | .device i =>
    if a.clear then
      { p with
        pdds := p.pdds.modify i fun pdd =>
          { pdd with vmFaultExcData := none, vmFaultExcDataSize := 0 } }
    else p
  | _ => p

def Process.dataOf (p : Process) : Source → List UInt8 × Nat
  | .device i =>
    match p.pdds[i]? with
    | some pdd => (pdd.vmFaultExcData.getD [], pdd.vmFaultExcDataSize)
    | none => ([], 0)
  | _ => ([], 0)

def kfdDbgTrapQueryExceptionInfo (u : Uapi) (p : Process) (a : InfoArgs) : Process × Answer :=
  if a.given = false then (p, .fail .einval)
  else
    match u.kind a.code with
    | none => (p, .fail .einval)
    | some kind =>
      match p.infoSource a.sourceId kind with
      | none => (p, .fail .einval)
      | some src =>
        if u.ecBit a.code ∉ (p.statusOf src).getD ∅ then (p, .fail .enodata)
        else if kind = .device ∧ a.code = u.memoryViolation then
          if a.copy = false then (p, .fail .efault)
          else
            ((p.freeData a src).clearInfo u a src,
              { Answer.report src {u.ecBit a.code} with
                info := (p.dataOf src).1.take (min a.infoSize (p.dataOf src).2)
                infoSize := (p.dataOf src).2 })
        else if kind = .process ∧ a.code = u.processRuntime then
          if a.copy = false then (p, .fail .efault)
          else
            (p.clearInfo u a src,
              { Answer.report src {u.ecBit a.code} with
                info := p.runtimeInfo.take a.infoSize
                infoSize := p.runtimeInfo.length })
        else (p.clearInfo u a src, .report src {u.ecBit a.code})

/-! ## Snapshots -/

/-- The loop of a snapshot, from entry `n` on: an entry that counts is cleared by `f`, and
then copied. It returns whether a copy failed, which ends the loop; the entries beyond
`limit` are left alone. -/
def snapshotLoop {α : Type} (counts : α → Bool) (f : α → α) (fails : Nat → Bool) (limit : Nat) :
    List α → Nat → List α × Bool
  | [], _ => ([], false)
  | x :: xs, n =>
    if counts x = false then
      let r := snapshotLoop counts f fails limit xs n
      (x :: r.1, r.2)
    else if n < limit then
      if fails n then (f x :: xs, true)
      else
        let r := snapshotLoop counts f fails limit xs (n + 1)
        (f x :: r.1, r.2)
    else (x :: xs, false)

/-- The arguments of a snapshot: whether the addresses are given, the mask, the number of
entries and the size of one, and the copies that fail. -/
structure SnapshotArgs where
  given : Bool
  clearMask : Bitmap
  number : Nat
  entrySize : Nat
  fails : Nat → Bool

def before {α : Type} (counts : α → Bool) (xs : List α) (i : Nat) : Nat :=
  (xs.take i).countP counts

def Process.deviceLoop (p : Process) (a : SnapshotArgs) : List Pdd × Bool :=
  snapshotLoop (fun _ => true) (·.mapStatus (· \ a.clearMask)) a.fails a.number p.pdds 0

def Process.queueLoop (p : Process) (a : SnapshotArgs) : List (Option Queue) × Bool :=
  snapshotLoop (·.isSome) (·.map (·.mapStatus (· \ a.clearMask))) a.fails a.number p.queues 0

def kfdDbgTrapDeviceSnapshot (u : Uapi) (p : Process) (a : SnapshotArgs) : Process × Answer :=
  if a.given = false then (p, .fail .einval)
  else
    ({ p with pdds := (p.deviceLoop a).1 },
      if (p.deviceLoop a).2 then .fail .efault
      else
        { error := none
          seen := fun src =>
            match src with
            | .device i =>
              if i < a.number then
                (p.statusOf src).getD ∅ ∩ u.deviceSeen (min a.entrySize u.deviceEntrySize)
              else ∅
            | _ => ∅
          info := []
          infoSize := 0 })

def pqmGetQueueSnapshot (u : Uapi) (p : Process) (a : SnapshotArgs) : Process × Answer :=
  if a.entrySize = 0 then (p, .fail .einval)
  else
    ({ p with queues := (p.queueLoop a).1 },
      if (p.queueLoop a).2 then .fail .efault
      else
        { error := none
          seen := fun src =>
            match src with
            | .queue i =>
              if before (·.isSome) p.queues i < a.number then
                (p.statusOf src).getD ∅ ∩ u.queueSeen (min a.entrySize u.queueEntrySize)
              else ∅
            | _ => ∅
          info := []
          infoSize := 0 })

/-! ## Runs -/

/-- A call on the process. -/
inductive Op
  | raise (a : RaiseArgs)
  | queryEvent (clearMask : Bitmap)
  | queryInfo (a : InfoArgs)
  | deviceSnapshot (a : SnapshotArgs)
  | queueSnapshot (a : SnapshotArgs)

/-- The process after a call, and what the call returns. -/
def step (u : Uapi) (p : Process) : Op → Process × Answer
  | .raise a => ((kfdDbgEvRaise u p a).1, .report .process ∅)
  | .queryEvent clearMask => kfdDbgEvQueryDebugEvent p clearMask
  | .queryInfo a => kfdDbgTrapQueryExceptionInfo u p a
  | .deviceSnapshot a => kfdDbgTrapDeviceSnapshot u p a
  | .queueSnapshot a => pqmGetQueueSnapshot u p a

def next (u : Uapi) (p : Process) (op : Op) : Process :=
  (step u p op).1

/-- The bits that a call asks to clear. -/
def Op.clearMask (u : Uapi) : Op → Bitmap
  | .raise _ => ∅
  | .queryEvent clearMask => clearMask
  | .queryInfo a => if a.clear then {u.ecBit a.code} else ∅
  | .deviceSnapshot a => a.clearMask
  | .queueSnapshot a => a.clearMask

def Process.Raised (p : Process) (src : Source) (bit : Nat) : Prop :=
  bit ∈ (p.statusOf src).getD ∅

/-- The data of a memory violation that is recorded for a device. -/
def Process.recorded (p : Process) (i : Nat) : Option (List UInt8) :=
  (p.pdds[i]?).bind (·.vmFaultExcData)

/-- The call has succeeded, has reported the bit, and was asked to clear it. -/
def Reported (u : Uapi) (p : Process) (op : Op) (src : Source) (bit : Nat) : Prop :=
  (step u p op).2.error = none ∧ bit ∈ (step u p op).2.seen src ∧ bit ∈ op.clearMask u

def Op.AsksData (u : Uapi) (p : Process) (i : Nat) : Op → Prop
  | .queryInfo a =>
    a.code = u.memoryViolation ∧ u.kind a.code = some .device ∧
      p.infoSource a.sourceId .device = some (.device i)
  | _ => False

def Op.infoSize : Op → Nat
  | .queryInfo a => a.infoSize
  | _ => 0

/-- The call has succeeded in asking for the memory violation of device `i`. -/
def Answered (u : Uapi) (p : Process) (op : Op) (i : Nat) : Prop :=
  op.AsksData u p i ∧ (step u p op).2.error = none

/-- What a call must do: a bit that is set stays set, unless the call reports it, and a
query of a memory violation that succeeds returns the data recorded for it, which every
other call keeps. -/
structure Keeps (u : Uapi) (p : Process) (op : Op) : Prop where
  bits : ∀ src bit, p.Raised src bit → (next u p op).Raised src bit ∨ Reported u p op src bit
  data : ∀ i data, p.recorded i = some data → Answered u p op i →
    (step u p op).2.info = data.take op.infoSize ∧ (step u p op).2.infoSize = data.length
  held : ∀ i data, p.recorded i = some data → ¬ Answered u p op i →
    (next u p op).recorded i = some data

/-- The snapshot gets to entry `i`: it counts, it is within the limit, and no copy before
it has failed. -/
def Visited {α : Type} (counts : α → Bool) (fails : Nat → Bool) (limit : Nat) (xs : List α)
    (i : Nat) : Prop :=
  (xs[i]?).any counts ∧ before counts xs i < limit ∧ ∀ m < before counts xs i, fails m = false

/-- The condition of a snapshot: where it gets to an entry with a bit to clear, no copy
fails, and the bit is in the part of the entry that is copied. -/
def SnapshotOk {α : Type} (counts : α → Bool) (status : α → Bitmap) (seen : Bitmap)
    (a : SnapshotArgs) (xs : List α) : Prop :=
  ∀ i x bit, Visited counts a.fails a.number xs i → xs[i]? = some x → bit ∈ status x →
    bit ∈ a.clearMask →
    bit ∈ seen ∧ ∀ j, Visited counts a.fails a.number xs j → a.fails (before counts xs j) = false

/-- The condition of a call. A query of a memory violation must find that no data was
recorded, as the size of the data is not. -/
def Op.Ok (u : Uapi) (p : Process) : Op → Prop
  | .raise _ => True
  | .queryEvent _ => True
  | .queryInfo a =>
    a.given → a.code = u.memoryViolation → u.kind a.code = some .device → a.copy →
    ∀ i, p.infoSource a.sourceId .device = some (.device i) →
      p.Raised (.device i) (u.ecBit a.code) → (p.recorded i).getD [] = []
  | .deviceSnapshot a =>
    a.given → SnapshotOk (fun _ => true) (·.exceptionStatus)
      (u.deviceSeen (min a.entrySize u.deviceEntrySize)) a p.pdds
  | .queueSnapshot a =>
    a.entrySize ≠ 0 → SnapshotOk (·.isSome) (·.elim ∅ (·.exceptionStatus))
      (u.queueSeen (min a.entrySize u.queueEntrySize)) a p.queues

/-! ## The status of the sources -/

theorem statusOf_mapStatus (p : Process) (f : Bitmap → Bitmap) (src src' : Source) :
    (p.mapStatus f src).statusOf src' =
      if src' = src then (p.statusOf src').map f else p.statusOf src' := by
  cases src with
  | queue i =>
    cases src' with
    | queue j =>
      by_cases hij : j = i
      · subst hij
        rcases hq : p.queues[j]? with _ | _ | q <;>
          simp [Process.mapStatus, Process.statusOf, hq, Queue.mapStatus]
      · simp [Process.mapStatus, Process.statusOf, hij, Ne.symm hij]
    | device j => rfl
    | process => rfl
  | device i =>
    cases src' with
    | queue j => rfl
    | device j =>
      by_cases hij : j = i
      · subst hij
        rcases hq : p.pdds[j]? with _ | q <;>
          simp [Process.mapStatus, Process.statusOf, hq, Pdd.mapStatus]
      · simp [Process.mapStatus, Process.statusOf, hij, Ne.symm hij]
    | process => rfl
  | process =>
    cases src' with
    | queue j => rfl
    | device j => rfl
    | process => rfl

variable {p : Process} {bit : Nat} {i : Nat} {src : Source} {a : RaiseArgs} {u : Uapi}

/-- The bits that are set after the status of a source has changed. -/
theorem raised_mapStatus {f : Bitmap → Bitmap} {src src' : Source} :
    (p.mapStatus f src).Raised src' bit ↔
      if src' = src then bit ∈ ((p.statusOf src').map f).getD ∅ else p.Raised src' bit := by
  unfold Process.Raised
  rw [statusOf_mapStatus]
  split <;> rfl

theorem raised_union {more : Bitmap} {src src' : Source} (h : p.Raised src' bit) :
    (p.mapStatus (· ∪ more) src).Raised src' bit := by
  rw [raised_mapStatus]
  split
  · rcases hs : p.statusOf src' with _ | status
    · simp [Process.Raised, hs] at h
    · simp only [Process.Raised, hs, getD_some] at h
      simp [h]
  · exact h

variable {mask : Bitmap} {data : List UInt8}

theorem raised_sdiff {src src' : Source} :
    (p.mapStatus (· \ mask) src).Raised src' bit ↔
      p.Raised src' bit ∧ (src' = src → bit ∉ mask) := by
  rw [raised_mapStatus]
  split
  · next heq =>
    subst heq
    rcases hs : p.statusOf src' with _ | status <;> simp [Process.Raised, hs]
  · next hne => simp [hne]

@[simp] theorem recorded_mapStatus (p : Process) (f : Bitmap → Bitmap) (src : Source) (i : Nat) :
    (p.mapStatus f src).recorded i = p.recorded i := by
  cases src with
  | queue j => rfl
  | device j =>
    by_cases hij : j = i
    · subst hij
      rcases hq : p.pdds[j]? with _ | q <;>
        simp [Process.mapStatus, Process.recorded, hq, Pdd.mapStatus]
    · simp [Process.mapStatus, Process.recorded, hij]
  | process => rfl

/-! ## Calls on one source -/

theorem raised_of_pdds {f : Pdd → Pdd} (hf : ∀ pdd, (f pdd).exceptionStatus = pdd.exceptionStatus) :
    ({ p with pdds := p.pdds.modify i f } : Process).Raised src bit ↔ p.Raised src bit := by
  cases src with
  | queue j => rfl
  | device j =>
    by_cases hij : i = j
    · subst hij
      rcases hq : p.pdds[i]? with _ | pdd <;> simp [Process.Raised, Process.statusOf, hq, hf]
    · simp [Process.Raised, Process.statusOf, hij]
  | process => rfl

theorem raised_keepData :
    ({ p with pdds := p.pdds.modify i (·.keepData a) } : Process).Raised src bit ↔
      p.Raised src bit := by
  refine raised_of_pdds fun pdd => ?_
  unfold Pdd.keepData
  split <;> rfl

theorem kfdDbgEvRaise_raised (h : p.Raised src bit) : (kfdDbgEvRaise u p a).1.Raised src bit := by
  unfold kfdDbgEvRaise
  split
  · exact h
  · dsimp only
    split
    · split
      · exact h
      · split
        · exact raised_keepData.mpr (raised_union h)
        · exact raised_union h
    · split
      · exact raised_union h
      · split
        · exact h
        · exact raised_union h

theorem recorded_keepData {i j : Nat} (h : p.recorded j = some data) :
    ({ p with pdds := p.pdds.modify i (·.keepData a) } : Process).recorded j = some data := by
  unfold Process.recorded at *
  by_cases hij : i = j
  · subst hij
    rcases hq : p.pdds[i]? with _ | pdd
    · simp [hq] at h
    · simp only [hq, bind_some] at h
      simp [hq, Pdd.keepData, h]
  · simpa [hij] using h

theorem kfdDbgEvRaise_recorded {j : Nat} (h : p.recorded j = some data) :
    (kfdDbgEvRaise u p a).1.recorded j = some data := by
  unfold kfdDbgEvRaise
  split
  · exact h
  · dsimp only
    split
    · split
      · exact h
      · split
        · exact recorded_keepData (by simpa using h)
        · simpa using h
    · split
      · simpa using h
      · split
        · exact h
        · simpa using h

/-- The raised exception is a memory violation of device `i`, and its data is to be kept. -/
def Records (u : Uapi) (p : Process) (a : RaiseArgs) (i : Nat) : Prop :=
  p.debugTrapEnabled ∧ (a.eventMask ∩ u.maskDevice).Nonempty ∧
    u.ecBit u.memoryViolation ∈ a.eventMask ∧ p.pdds.findIdx? (·.dev = a.dev) = some i ∧
    p.recorded i = none ∧ a.kmemdup

theorem kfdDbgEvRaise_records (h : Records u p a i) :
    (kfdDbgEvRaise u p a).1.recorded i = some a.data := by
  obtain ⟨hon, hdev, hviol, hfind, hnone, hdup⟩ := h
  obtain ⟨hi, -⟩ := findIdx?_eq_some_iff_findIdx_eq.mp hfind
  have hdata : (p.pdds.get ⟨i, hi⟩).vmFaultExcData = none := by
    simpa [Process.recorded, hi] using hnone
  simp only [kfdDbgEvRaise, hon, hdev, hviol, hfind, if_true, Bool.true_eq_false, if_false]
  simp only [get_eq_getElem] at hdata
  simp [Process.recorded, Process.mapStatus, hi, Pdd.mapStatus, Pdd.keepData, hdup, hdata]

/-- The report of a source keeps the bits that it does not report. -/
theorem reportStatus_raised {src src' : Source} (h : p.Raised src' bit) :
    (p.reportStatus mask src).1.Raised src' bit ∨
      (p.reportStatus mask src).2.error = none ∧
        bit ∈ (p.reportStatus mask src).2.seen src' ∧ bit ∈ mask := by
  unfold Process.reportStatus
  by_cases hclear : src' = src ∧ bit ∈ mask
  · obtain ⟨rfl, hbit⟩ := hclear
    right
    refine ⟨rfl, ?_, hbit⟩
    simpa [Answer.report, Process.Raised] using h
  · left
    rw [raised_sdiff]
    exact ⟨h, fun heq hbit => hclear ⟨heq, hbit⟩⟩

theorem queryEvent_keeps (u : Uapi) (p : Process) (mask : Bitmap) :
    Keeps u p (.queryEvent mask) := by
  have hcases : (∃ e, kfdDbgEvQueryDebugEvent p mask = (p, .fail e)) ∨
      ∃ src, kfdDbgEvQueryDebugEvent p mask = p.reportStatus mask src := by
    unfold kfdDbgEvQueryDebugEvent
    split
    · exact .inl ⟨_, rfl⟩
    · dsimp only
      split
      · exact .inr ⟨_, rfl⟩
      · split
        · exact .inr ⟨_, rfl⟩
        · split
          · exact .inr ⟨_, rfl⟩
          · exact .inl ⟨_, rfl⟩
  have hstep : step u p (.queryEvent mask) = kfdDbgEvQueryDebugEvent p mask := rfl
  constructor
  case bits =>
    intro src bit hbit
    unfold Reported next
    rw [hstep]
    rcases hcases with ⟨e, heq⟩ | ⟨src', heq⟩ <;> rw [heq]
    · exact .inl hbit
    · exact reportStatus_raised hbit
  case data => exact fun i data _ h => h.1.elim
  case held =>
    intro i data hdata _
    unfold next
    rw [hstep]
    rcases hcases with ⟨e, heq⟩ | ⟨src', heq⟩ <;> rw [heq]
    · exact hdata
    · simpa [Process.reportStatus] using hdata

theorem raise_keeps (u : Uapi) (p : Process) (a : RaiseArgs) : Keeps u p (.raise a) where
  bits _ _ h := .inl (kfdDbgEvRaise_raised h)
  data _ _ _ h := h.1.elim
  held _ _ h _ := kfdDbgEvRaise_recorded h

/-! ## Queries of the information -/

def InfoArgs.ForData (u : Uapi) (a : InfoArgs) : Prop :=
  a.code = u.memoryViolation ∧ u.kind a.code = some .device

/-- What a query does: it fails and changes nothing, or it finds a source with the bit
set, reports the bit, and clears it if asked to. Only a query for the data of a memory
violation touches the data. -/
theorem queryInfo_cases (u : Uapi) (p : Process) (a : InfoArgs) :
    (∃ e, kfdDbgTrapQueryExceptionInfo u p a = (p, .fail e)) ∨
    ∃ src kind answer, a.given ∧ u.kind a.code = some kind ∧
      p.infoSource a.sourceId kind = some src ∧ p.Raised src (u.ecBit a.code) ∧
      answer.error = none ∧ answer.seen = (Answer.report src {u.ecBit a.code}).seen ∧
      (¬ a.ForData u ∧ kfdDbgTrapQueryExceptionInfo u p a = (p.clearInfo u a src, answer) ∨
        a.ForData u ∧ a.copy ∧
        answer.info = (p.dataOf src).1.take (min a.infoSize (p.dataOf src).2) ∧
        answer.infoSize = (p.dataOf src).2 ∧
        kfdDbgTrapQueryExceptionInfo u p a = ((p.freeData a src).clearInfo u a src, answer)) := by
  unfold kfdDbgTrapQueryExceptionInfo
  split
  · exact .inl ⟨_, rfl⟩
  next hgiven =>
  have hgiven : a.given = true := by simpa using hgiven
  cases hkind : u.kind a.code with
  | none => exact .inl ⟨_, rfl⟩
  | some kind =>
    dsimp only
    cases hsrc : p.infoSource a.sourceId kind with
    | none => exact .inl ⟨_, rfl⟩
    | some src =>
      dsimp only
      split
      · exact .inl ⟨_, rfl⟩
      next hbit =>
      have hbit : p.Raised src (u.ecBit a.code) := not_not.mp hbit
      split
      · next hdata =>
        obtain ⟨rfl, hcode⟩ := hdata
        split
        · exact .inl ⟨_, rfl⟩
        next hcopy =>
        refine .inr ⟨src, _, _, hgiven, rfl, hsrc, hbit, ?_, ?_,
          .inr ⟨⟨hcode, hkind⟩, by simpa using hcopy, ?_, ?_, rfl⟩⟩ <;> rfl
      next hdata =>
      have hdata : ¬ a.ForData u := by
        rintro ⟨hcode, hdev⟩
        rw [hkind, Option.some.injEq] at hdev
        exact hdata ⟨hdev, hcode⟩
      split
      · split
        · exact .inl ⟨_, rfl⟩
        · refine .inr ⟨src, kind, _, hgiven, rfl, hsrc, hbit, ?_, ?_, .inl ⟨hdata, rfl⟩⟩ <;> rfl
      · refine .inr ⟨src, kind, _, hgiven, rfl, hsrc, hbit, ?_, ?_, .inl ⟨hdata, rfl⟩⟩ <;> rfl

theorem clearInfo_raised {a : InfoArgs} {src src' : Source} (h : p.Raised src' bit) :
    (p.clearInfo u a src).Raised src' bit ∨
      bit ∈ (Answer.report src {u.ecBit a.code}).seen src' ∧
        bit ∈ (Op.queryInfo a).clearMask u := by
  unfold Process.clearInfo Op.clearMask
  dsimp only
  split
  · by_cases hclear : src' = src ∧ bit = u.ecBit a.code
    · obtain ⟨rfl, rfl⟩ := hclear
      exact .inr (by simp [Answer.report])
    · refine .inl (raised_sdiff.mpr ⟨h, fun heq hbit => hclear ⟨heq, ?_⟩⟩)
      simpa using hbit
  · exact .inl h

theorem freeData_raised {a : InfoArgs} {src src' : Source} :
    (p.freeData a src).Raised src' bit ↔ p.Raised src' bit := by
  cases src with
  | queue i => rfl
  | device i =>
    simp only [Process.freeData]
    split
    · apply raised_of_pdds; exact fun pdd => rfl
    · rfl
  | process => rfl

@[simp] theorem clearInfo_recorded (u : Uapi) (p : Process) (a : InfoArgs) (src : Source)
    (i : Nat) : (p.clearInfo u a src).recorded i = p.recorded i := by
  unfold Process.clearInfo
  split <;> simp

theorem freeData_recorded {a : InfoArgs} (h : src ≠ .device i) :
    (p.freeData a src).recorded i = p.recorded i := by
  cases src with
  | queue j => rfl
  | device j =>
    have hji : j ≠ i := fun heq => h (congrArg Source.device heq)
    simp only [Process.freeData]
    split
    · simp [Process.recorded, hji]
    · rfl
  | process => rfl

def Process.Unsized (p : Process) : Prop :=
  ∀ (i : Nat) (pdd : Pdd), p.pdds[i]? = some pdd → pdd.vmFaultExcDataSize = 0

theorem Process.Unsized.dataOf (h : p.Unsized) (src : Source) : (p.dataOf src).2 = 0 := by
  cases src with
  | queue i => rfl
  | device i =>
    cases hpdd : p.pdds[i]? with
    | none => simp [Process.dataOf, hpdd]
    | some pdd => simpa [Process.dataOf, hpdd] using h i pdd hpdd
  | process => rfl

theorem infoSource_device {sourceId : Nat} (h : p.infoSource sourceId .device = some src) :
    ∃ i, src = .device i := by
  obtain ⟨i, -, rfl⟩ := map_eq_some_iff.mp h
  exact ⟨i, rfl⟩

theorem queryInfo_succeeds {a : InfoArgs} (hgiven : a.given) (hdata : a.ForData u)
    (hcopy : a.copy) (hsrc : p.infoSource a.sourceId .device = some (.device i))
    (hbit : p.Raised (.device i) (u.ecBit a.code)) :
    (kfdDbgTrapQueryExceptionInfo u p a).2.error = none := by
  obtain ⟨hcode, hdev⟩ := hdata
  have hbit : u.ecBit a.code ∈ (p.statusOf (.device i)).getD ∅ := hbit
  rw [hcode] at hdev hbit
  simp only [kfdDbgTrapQueryExceptionInfo, hgiven, hdev, hsrc, hbit, hcode, hcopy, not_true,
    if_false, Bool.true_eq_false, and_self, if_true]
  rfl

theorem keeps_of_unchanged {op : Op} {e : Errno} (h : step u p op = (p, .fail e)) :
    Keeps u p op where
  bits _ _ hbit := .inl (by rwa [next, h])
  data _ _ _ hanswered := by
    have herror := hanswered.2
    rw [h] at herror
    exact (nomatch herror)
  held _ _ hdata _ := by rwa [next, h]

theorem queryInfo_keeps_iff (hp : p.Unsized) (a : InfoArgs) :
    Keeps u p (.queryInfo a) ↔ (Op.queryInfo a).Ok u p := by
  have hstep : step u p (.queryInfo a) = kfdDbgTrapQueryExceptionInfo u p a := rfl
  rcases queryInfo_cases u p a with ⟨e, heq⟩ |
    ⟨src, kind, answer, hgiven, hkind, hsrc, hbit, herror, hseen, ⟨hdata, heq⟩ |
      ⟨hdata, hcopy, hinfo, hsize, heq⟩⟩
  · refine iff_of_true (keeps_of_unchanged heq) ?_
    intro hgiven hcode hdev hcopy i hsrc hbit
    have herror := queryInfo_succeeds hgiven ⟨hcode, hdev⟩ hcopy hsrc hbit
    rw [heq] at herror
    exact (nomatch herror)
  · refine iff_of_true ⟨?_, ?_, ?_⟩ fun _ hcode hdev => absurd ⟨hcode, hdev⟩ hdata
    · intro src' bit hraised
      unfold next Reported
      rw [hstep, heq]
      rcases clearInfo_raised hraised with hkept | ⟨hreport, hclear⟩
      · exact .inl hkept
      · exact .inr ⟨herror, by rwa [hseen], hclear⟩
    · exact fun i data _ hanswered => absurd ⟨hanswered.1.1, hanswered.1.2.1⟩ hdata
    · intro i data hrec _
      rw [next, hstep, heq]
      simpa using hrec
  · obtain rfl : Kind.device = kind := some.inj (hdata.2.symm.trans hkind)
    obtain ⟨i, rfl⟩ := infoSource_device hsrc
    have hzero := hp.dataOf (.device i)
    constructor
    · intro hkeeps _ _ _ _ j hsrc' _
      obtain rfl : i = j := Source.device.inj (some.inj (hsrc.symm.trans hsrc'))
      cases hrec : p.recorded i with
      | none => rfl
      | some data =>
        have hlen := (hkeeps.data i data hrec
          ⟨⟨hdata.1, hdata.2, hsrc⟩, by rw [hstep, heq, herror]⟩).2
        rw [hstep, heq, hsize, hzero] at hlen
        exact length_eq_zero_iff.mp hlen.symm
    · intro hok
      refine ⟨?_, ?_, ?_⟩
      · intro src' bit hraised
        unfold next Reported
        rw [hstep, heq]
        rcases clearInfo_raised (freeData_raised.mpr hraised) with hkept | ⟨hreport, hclear⟩
        · exact .inl hkept
        · exact .inr ⟨herror, by rwa [hseen], hclear⟩
      · intro j data hrec hanswered
        obtain rfl : i = j :=
          Source.device.inj (some.inj (hsrc.symm.trans hanswered.1.2.2))
        have hempty := hok hgiven hdata.1 hdata.2 hcopy i hsrc hbit
        rw [hrec, getD_some] at hempty
        rw [hstep, heq, hinfo, hsize, hzero, hempty]
        simp
      · intro j data hrec hunanswered
        have hne : Source.device i ≠ .device j := by
          rintro ⟨⟩
          exact hunanswered ⟨⟨hdata.1, hdata.2, hsrc⟩, by rw [hstep, heq, herror]⟩
        rw [next, hstep, heq]
        simpa [freeData_recorded hne] using hrec

/-! ## The loop of a snapshot -/

section
variable {α : Type} {counts : α → Bool} {f : α → α} {fails : Nat → Bool} {limit : Nat}

@[simp] theorem before_zero (xs : List α) : before counts xs 0 = 0 := rfl

@[simp] theorem before_cons_succ (x : α) (xs : List α) (i : Nat) :
    before counts (x :: xs) (i + 1) = before counts xs i + if counts x then 1 else 0 := by
  simp [before, countP_cons]

@[simp] theorem visited_nil (i : Nat) : ¬ Visited counts fails limit [] i := by
  simp [Visited]

@[simp] theorem visited_cons_zero (x : α) (xs : List α) :
    Visited counts fails limit (x :: xs) 0 ↔ counts x ∧ 0 < limit := by
  simp [Visited]

variable {x : α} {xs : List α} {i : Nat}

theorem visited_cons_succ (hx : counts x = false) :
    Visited counts fails limit (x :: xs) (i + 1) ↔ Visited counts fails limit xs i := by
  simp [Visited, hx]

theorem visited_cons_succ_of_counts (hx : counts x = true) :
    Visited counts fails limit (x :: xs) (i + 1) ↔
      1 < limit ∧ fails 0 = false ∧ Visited counts (fun m => fails (m + 1)) (limit - 1) xs i := by
  simp only [Visited, getElem?_cons_succ, before_cons_succ, hx, if_true]
  constructor
  · rintro ⟨hcounts, hlt, hfine⟩
    exact ⟨by omega, hfine 0 (by omega), hcounts, by omega, fun m hm => hfine _ (by omega)⟩
  · rintro ⟨hlimit, hzero, hcounts, hlt, hfine⟩
    refine ⟨hcounts, by omega, fun m hm => ?_⟩
    cases m with
    | zero => exact hzero
    | succ m => exact hfine m (by omega)

theorem snapshotLoop_getElem (xs : List α) (n i : Nat) :
    (Visited counts (fun m => fails (m + n)) (limit - n) xs i →
      (snapshotLoop counts f fails limit xs n).1[i]? = (xs[i]?).map f) ∧
    (¬ Visited counts (fun m => fails (m + n)) (limit - n) xs i →
      (snapshotLoop counts f fails limit xs n).1[i]? = xs[i]?) := by
  induction xs generalizing n i with
  | nil => simp [snapshotLoop]
  | cons x xs ih =>
    unfold snapshotLoop
    split
    · next hx =>
      cases i with
      | zero => simp [hx]
      | succ i => simpa [visited_cons_succ hx] using ih n i
    next hx =>
    have hx : counts x = true := by simpa using hx
    split
    · next hlt =>
      split
      · next hfail =>
        cases i with
        | zero => simp [hx, Nat.sub_pos_of_lt hlt]
        | succ i => simp [visited_cons_succ_of_counts hx, hfail]
      · next hfine =>
        cases i with
        | zero => simp [hx, Nat.sub_pos_of_lt hlt]
        | succ i =>
          have hshift : (fun m => fails (m + 1 + n)) = fun m => fails (m + (n + 1)) := by
            funext m
            rw [add_right_comm, add_assoc]
          have ih := ih (n + 1) i
          rw [visited_cons_succ_of_counts hx, hshift, Nat.sub_sub]
          have hlast : Visited counts (fun m => fails (m + (n + 1))) (limit - (n + 1)) xs i →
              1 < limit - n := fun h => by have := h.2.1; omega
          refine ⟨fun h => ih.1 h.2.2, fun h => ih.2 fun hv => h ⟨hlast hv, ?_, hv⟩⟩
          simpa using hfine
    · next hle =>
      have hzero : limit - n = 0 := by omega
      refine ⟨fun h => ?_, fun _ => rfl⟩
      have hlt := h.2.1
      omega

theorem snapshotLoop_failed (xs : List α) (n : Nat) :
    (snapshotLoop counts f fails limit xs n).2 = true ↔
      ∃ i, Visited counts (fun m => fails (m + n)) (limit - n) xs i ∧
        fails (before counts xs i + n) = true := by
  induction xs generalizing n with
  | nil => simp [snapshotLoop]
  | cons x xs ih =>
    unfold snapshotLoop
    split
    · next hx =>
      rw [ih]
      constructor
      · rintro ⟨i, hv, hfail⟩
        exact ⟨i + 1, (visited_cons_succ hx).mpr hv, by simpa [hx] using hfail⟩
      · rintro ⟨i, hv, hfail⟩
        cases i with
        | zero => simp [hx] at hv
        | succ i => exact ⟨i, (visited_cons_succ hx).mp hv, by simpa [hx] using hfail⟩
    next hx =>
    have hx : counts x = true := by simpa using hx
    split
    · next hlt =>
      split
      · next hfail =>
        refine iff_of_true rfl ⟨0, ?_, by simpa using hfail⟩
        simp [hx, Nat.sub_pos_of_lt hlt]
      · next hfine =>
        have hshift : (fun m => fails (m + 1 + n)) = fun m => fails (m + (n + 1)) := by
          funext m
          rw [add_right_comm, add_assoc]
        have hcount : ∀ i, before counts (x :: xs) (i + 1) + n = before counts xs i + (n + 1) := by
          intro i
          rw [before_cons_succ, if_pos hx]
          omega
        rw [ih]
        constructor
        · rintro ⟨i, hv, hfail⟩
          refine ⟨i + 1, ?_, by rw [hcount]; exact hfail⟩
          rw [visited_cons_succ_of_counts hx, hshift, Nat.sub_sub]
          have hlast := hv.2.1
          exact ⟨by omega, by simpa using hfine, hv⟩
        · rintro ⟨i, hv, hfail⟩
          cases i with
          | zero => exact absurd (by simpa using hfail) hfine
          | succ i =>
            rw [visited_cons_succ_of_counts hx, hshift, Nat.sub_sub] at hv
            rw [hcount] at hfail
            exact ⟨i, hv.2.2, hfail⟩
    · next hle =>
      refine iff_of_false (by simp) ?_
      rintro ⟨i, hv, -⟩
      have hlt := hv.2.1
      omega

theorem snapshotLoop_kept_iff {status : α → Bitmap} {seen : Bitmap} {a : SnapshotArgs}
    (hf : ∀ x, status (f x) = status x \ a.clearMask) (xs : List α) :
    (∀ i x bit, xs[i]? = some x → counts x → bit ∈ status x →
      (∃ y, (snapshotLoop counts f a.fails a.number xs 0).1[i]? = some y ∧ bit ∈ status y) ∨
        (snapshotLoop counts f a.fails a.number xs 0).2 = false ∧
          before counts xs i < a.number ∧ bit ∈ seen ∧ bit ∈ a.clearMask) ↔
      SnapshotOk counts status seen a xs := by
  have hget := fun i => @snapshotLoop_getElem α counts f a.fails a.number xs 0 i
  have hfailed := @snapshotLoop_failed α counts f a.fails a.number xs 0
  simp only [add_zero, Nat.sub_zero] at hget hfailed
  constructor
  · intro hkept i x bit hv hx hbit hclear
    have hcounts : counts x := by simpa [hx] using hv.1
    rcases hkept i x bit hx hcounts hbit with ⟨y, hy, hin⟩ | ⟨hfine, -, hseen, -⟩
    · rw [(hget i).1 hv, hx, map_some, Option.some.injEq] at hy
      rw [← hy, hf, Finset.mem_sdiff] at hin
      exact absurd hclear hin.2
    · refine ⟨hseen, fun j hj => ?_⟩
      rw [← Bool.not_eq_true]
      intro hfail
      rw [hfailed.mpr ⟨j, hj, hfail⟩] at hfine
      exact (nomatch hfine)
  · intro hok i x bit hx hcounts hbit
    by_cases hv : Visited counts a.fails a.number xs i
    · by_cases hclear : bit ∈ a.clearMask
      · obtain ⟨hseen, hfine⟩ := hok i x bit hv hx hbit hclear
        refine .inr ⟨?_, hv.2.1, hseen, hclear⟩
        rw [← Bool.not_eq_true, hfailed]
        rintro ⟨j, hj, hfail⟩
        rw [hfine j hj] at hfail
        exact (nomatch hfail)
      · refine .inl ⟨f x, ?_, ?_⟩
        · rw [(hget i).1 hv, hx, map_some]
        · rw [hf, Finset.mem_sdiff]
          exact ⟨hbit, hclear⟩
    · exact .inl ⟨x, by rw [(hget i).2 hv, hx], hbit⟩

end

/-! ## The snapshots -/

variable {p : Process} {u : Uapi}

theorem raised_device {i bit : Nat} :
    p.Raised (.device i) bit ↔ ∃ pdd, p.pdds[i]? = some pdd ∧ bit ∈ pdd.exceptionStatus := by
  cases hpdd : p.pdds[i]? <;> simp [Process.Raised, Process.statusOf, hpdd]

theorem raised_queue {i bit : Nat} :
    p.Raised (.queue i) bit ↔
      ∃ node : Option Queue, p.queues[i]? = some node ∧ bit ∈ node.elim ∅ (·.exceptionStatus) := by
  rcases hnode : p.queues[i]? with _ | _ | q <;> simp [Process.Raised, Process.statusOf, hnode]

variable {i : Nat} {a : SnapshotArgs}

theorem before_of_lt {α : Type} {xs : List α} (h : i < xs.length) :
    before (fun _ => true) xs i = i := by
  simp [before, le_of_lt h]

theorem deviceLoop_data (p : Process) (a : SnapshotArgs) (i : Nat) :
    (((p.deviceLoop a).1)[i]?).map (fun pdd => (pdd.vmFaultExcData, pdd.vmFaultExcDataSize)) =
      (p.pdds[i]?).map fun pdd => (pdd.vmFaultExcData, pdd.vmFaultExcDataSize) := by
  obtain ⟨hyes, hno⟩ := @snapshotLoop_getElem Pdd (fun _ => true)
    (·.mapStatus (· \ a.clearMask)) a.fails a.number p.pdds 0 i
  unfold Process.deviceLoop
  by_cases hv : Visited (fun _ : Pdd => true) (fun m => a.fails (m + 0)) (a.number - 0) p.pdds i
  · rw [hyes hv]
    cases p.pdds[i]? <;> rfl
  · rw [hno hv]

theorem deviceSnapshot_reported (h : a.given) {i bit : Nat} :
    Reported u p (.deviceSnapshot a) (.device i) bit ↔
      (p.deviceLoop a).2 = false ∧ i < a.number ∧ p.Raised (.device i) bit ∧
        bit ∈ u.deviceSeen (min a.entrySize u.deviceEntrySize) ∧ bit ∈ a.clearMask := by
  have hgiven : ¬ a.given = false := by simp [h]
  simp only [Reported, step, kfdDbgTrapDeviceSnapshot, hgiven]
  cases hfail : (p.deviceLoop a).2 with
  | true => simp [Answer.fail]
  | false =>
    by_cases hi : i < a.number <;> simp [hi, Op.clearMask, Process.Raised, and_assoc]

theorem deviceSnapshot_keeps_iff (u : Uapi) (p : Process) (a : SnapshotArgs) :
    Keeps u p (.deviceSnapshot a) ↔ (Op.deviceSnapshot a).Ok u p := by
  cases hgiven : a.given with
  | false =>
    have hfail : step u p (.deviceSnapshot a) = (p, .fail .einval) := by
      simp [step, kfdDbgTrapDeviceSnapshot, hgiven]
    exact iff_of_true (keeps_of_unchanged hfail) fun h => by simp [hgiven] at h
  | true =>
    have hnext : next u p (.deviceSnapshot a) = { p with pdds := (p.deviceLoop a).1 } := by
      simp [next, step, kfdDbgTrapDeviceSnapshot, hgiven]
    have hok : (Op.deviceSnapshot a).Ok u p ↔
        SnapshotOk (fun _ => true) (·.exceptionStatus)
          (u.deviceSeen (min a.entrySize u.deviceEntrySize)) a p.pdds :=
      ⟨fun h => h hgiven, fun h _ => h⟩
    rw [hok, ← snapshotLoop_kept_iff (f := (·.mapStatus (· \ a.clearMask))) fun _ => rfl]
    constructor
    · intro hkeeps i pdd bit hpdd _ hbit
      have hi : i < p.pdds.length := (List.getElem?_eq_some_iff.mp hpdd).1
      rw [before_of_lt hi]
      rcases hkeeps.bits (.device i) bit (raised_device.mpr ⟨pdd, hpdd, hbit⟩) with hkept | hrep
      · rw [hnext] at hkept
        exact .inl (raised_device.mp hkept)
      · obtain ⟨hfine, hlt, -, hseen, hclear⟩ := (deviceSnapshot_reported hgiven).mp hrep
        exact .inr ⟨hfine, hlt, hseen, hclear⟩
    · intro hkept
      refine ⟨fun src bit hbit => ?_, fun i data _ h => h.1.elim, fun i data hdata _ => ?_⟩
      · rw [hnext]
        cases src with
        | queue i => exact .inl hbit
        | device i =>
          obtain ⟨pdd, hpdd, hin⟩ := raised_device.mp hbit
          have hi : i < p.pdds.length := (List.getElem?_eq_some_iff.mp hpdd).1
          rcases hkept i pdd bit hpdd rfl hin with hleft | ⟨hfine, hlt, hseen, hclear⟩
          · exact .inl (raised_device.mpr hleft)
          · rw [before_of_lt hi] at hlt
            exact .inr ((deviceSnapshot_reported hgiven).mpr ⟨hfine, hlt, hbit, hseen, hclear⟩)
        | process => exact .inl hbit
      · rw [hnext]
        have hsame := deviceLoop_data p a i
        unfold Process.recorded at *
        cases hpdd : p.pdds[i]? with
        | none => simp [hpdd] at hdata
        | some pdd =>
          rw [hpdd, map_some, map_eq_some_iff] at hsame
          obtain ⟨pdd', hpdd', hsame⟩ := hsame
          rw [hpdd, bind_some] at hdata
          rw [hpdd', bind_some, ← hdata]
          exact congrArg Prod.fst hsame

theorem queueSnapshot_reported (h : a.entrySize ≠ 0) {i bit : Nat} :
    Reported u p (.queueSnapshot a) (.queue i) bit ↔
      (p.queueLoop a).2 = false ∧ before (·.isSome) p.queues i < a.number ∧
        p.Raised (.queue i) bit ∧ bit ∈ u.queueSeen (min a.entrySize u.queueEntrySize) ∧
        bit ∈ a.clearMask := by
  simp only [Reported, step, pqmGetQueueSnapshot, h, if_false]
  cases hfail : (p.queueLoop a).2 with
  | true => simp [Answer.fail]
  | false =>
    by_cases hi : before (·.isSome) p.queues i < a.number <;>
      simp [hi, Op.clearMask, Process.Raised, and_assoc]

theorem queueSnapshot_keeps_iff (u : Uapi) (p : Process) (a : SnapshotArgs) :
    Keeps u p (.queueSnapshot a) ↔ (Op.queueSnapshot a).Ok u p := by
  by_cases hsize : a.entrySize = 0
  · have hfail : step u p (.queueSnapshot a) = (p, .fail .einval) := by
      simp [step, pqmGetQueueSnapshot, hsize]
    exact iff_of_true (keeps_of_unchanged hfail) fun h => absurd hsize h
  · have hnext : next u p (.queueSnapshot a) = { p with queues := (p.queueLoop a).1 } := by
      simp [next, step, pqmGetQueueSnapshot, hsize]
    have hok : (Op.queueSnapshot a).Ok u p ↔
        SnapshotOk (·.isSome) (·.elim ∅ (·.exceptionStatus))
          (u.queueSeen (min a.entrySize u.queueEntrySize)) a p.queues :=
      ⟨fun h => h hsize, fun h _ => h⟩
    have hclears : ∀ node : Option Queue,
        (node.map (·.mapStatus (· \ a.clearMask))).elim (∅ : Bitmap) (·.exceptionStatus) =
          node.elim ∅ (·.exceptionStatus) \ a.clearMask := by
      intro node
      cases node with
      | none => simp
      | some q => rfl
    rw [hok, ← snapshotLoop_kept_iff hclears]
    constructor
    · intro hkeeps i node bit hnode _ hbit
      rcases hkeeps.bits (.queue i) bit (raised_queue.mpr ⟨node, hnode, hbit⟩) with hkept | hrep
      · rw [hnext] at hkept
        exact .inl (raised_queue.mp hkept)
      · obtain ⟨hfine, hlt, -, hseen, hclear⟩ := (queueSnapshot_reported hsize).mp hrep
        exact .inr ⟨hfine, hlt, hseen, hclear⟩
    · intro hkept
      refine ⟨fun src bit hbit => ?_, fun i data _ h => h.1.elim, fun i data hdata _ => ?_⟩
      · rw [hnext]
        cases src with
        | queue i =>
          obtain ⟨node, hnode, hin⟩ := raised_queue.mp hbit
          have hsome : node.isSome := by
            cases node with
            | none => simp at hin
            | some q => rfl
          rcases hkept i node bit hnode hsome hin with hleft | ⟨hfine, hlt, hseen, hclear⟩
          · exact .inl (raised_queue.mpr hleft)
          · exact .inr ((queueSnapshot_reported hsize).mpr ⟨hfine, hlt, hbit, hseen, hclear⟩)
        | device i => exact .inl hbit
        | process => exact .inl hbit
      · rw [hnext]
        exact hdata

/-! ## The size of the data -/

theorem unsized_modify (h : p.Unsized) (i : Nat) {f : Pdd → Pdd}
    (hf : ∀ pdd, pdd.vmFaultExcDataSize = 0 → (f pdd).vmFaultExcDataSize = 0) :
    ({ p with pdds := p.pdds.modify i f } : Process).Unsized := by
  intro j pdd hpdd
  rw [getElem?_modify] at hpdd
  obtain ⟨old, hold, rfl⟩ := map_eq_some_iff.mp hpdd
  split
  · exact hf _ (h j old hold)
  · exact h j old hold

theorem unsized_mapStatus (h : p.Unsized) (f : Bitmap → Bitmap) (src : Source) :
    (p.mapStatus f src).Unsized := by
  cases src with
  | queue i => exact h
  | device i => exact unsized_modify h i fun _ hpdd => hpdd
  | process => exact h

theorem next_unsized (h : p.Unsized) (op : Op) : (next u p op).Unsized := by
  cases op with
  | raise a =>
    simp only [next, step, kfdDbgEvRaise]
    split
    · exact h
    · dsimp only
      split
      · split
        · exact h
        · split
          · refine unsized_modify (unsized_mapStatus h _ _) _ fun pdd hpdd => ?_
            unfold Pdd.keepData
            split <;> exact hpdd
          · exact unsized_mapStatus h _ _
      · split
        · exact unsized_mapStatus h _ _
        · split
          · exact h
          · exact unsized_mapStatus h _ _
  | queryEvent mask =>
    simp only [next, step, kfdDbgEvQueryDebugEvent]
    split
    · exact h
    · split
      · exact unsized_mapStatus h _ _
      · split
        · exact unsized_mapStatus h _ _
        · split
          · exact unsized_mapStatus h _ _
          · exact h
  | queryInfo a =>
    have hclear : ∀ p : Process, p.Unsized → ∀ src, (p.clearInfo u a src).Unsized := by
      intro p hp src
      unfold Process.clearInfo
      split
      · exact unsized_mapStatus hp _ _
      · exact hp
    have hfree : ∀ src, (p.freeData a src).Unsized := by
      intro src
      cases src with
      | queue i => exact h
      | device i =>
        simp only [Process.freeData]
        split
        · exact unsized_modify h i fun _ _ => rfl
        · exact h
      | process => exact h
    rcases queryInfo_cases u p a with ⟨e, heq⟩ |
      ⟨src, kind, answer, -, -, -, -, -, -, ⟨-, heq⟩ | ⟨-, -, -, -, heq⟩⟩ <;>
      simp only [next, step, heq]
    · exact h
    · exact hclear p h src
    · exact hclear _ (hfree src) src
  | deviceSnapshot a =>
    simp only [next, step, kfdDbgTrapDeviceSnapshot]
    split
    · exact h
    · intro i pdd hpdd
      have hsame := deviceLoop_data p a i
      rw [hpdd, map_some, eq_comm, map_eq_some_iff] at hsame
      obtain ⟨old, hold, hsame⟩ := hsame
      exact (congrArg Prod.snd hsame).symm.trans (h i old hold)
  | queueSnapshot a =>
    simp only [next, step, pqmGetQueueSnapshot]
    split <;> exact h

/-! ## Runs of calls -/

theorem keeps_iff (h : p.Unsized) (op : Op) : Keeps u p op ↔ op.Ok u p := by
  cases op with
  | raise a => exact iff_of_true (raise_keeps u p a) trivial
  | queryEvent mask => exact iff_of_true (queryEvent_keeps u p mask) trivial
  | queryInfo a => exact queryInfo_keeps_iff h a
  | deviceSnapshot a => exact deviceSnapshot_keeps_iff u p a
  | queueSnapshot a => exact queueSnapshot_keeps_iff u p a

variable {ops : List Op}

theorem stepsOk_keeps (h : p.Unsized) (hok : StepsOk (next u) (fun p op => op.Ok u p) p ops) :
    StepsOk (next u) (Keeps u) p ops := by
  induction ops generalizing p with
  | nil => trivial
  | cons op ops ih => exact ⟨(keeps_iff h op).mpr hok.1, ih (next_unsized h op) hok.2⟩

theorem raised_run {src : Source} {bit : Nat} (hkeeps : StepsOk (next u) (Keeps u) p ops)
    (h : p.Raised src bit) :
    (run (next u) p ops).Raised src bit ∨
      ∃ mid op rest, ops = mid ++ op :: rest ∧ Reported u (run (next u) p mid) op src bit := by
  induction ops generalizing p with
  | nil => exact .inl h
  | cons op ops ih =>
    rcases hkeeps.1.bits src bit h with hset | hrep
    · rcases ih hkeeps.2 hset with hend | ⟨mid, op', rest, rfl, hrep⟩
      · exact .inl hend
      · exact .inr ⟨op :: mid, op', rest, rfl, hrep⟩
    · exact .inr ⟨[], op, ops, rfl, hrep⟩

theorem recorded_run {data : List UInt8} (hkeeps : StepsOk (next u) (Keeps u) p ops)
    (h : p.recorded i = some data)
    (hnone : ∀ mid op rest, ops = mid ++ op :: rest → ¬ Answered u (run (next u) p mid) op i) :
    (run (next u) p ops).recorded i = some data := by
  induction ops generalizing p with
  | nil => exact h
  | cons op ops ih =>
    refine ih hkeeps.2 (hkeeps.1.held i data h (hnone [] op ops rfl)) ?_
    intro mid op' rest heq
    exact hnone (op :: mid) op' rest (congrArg (op :: ·) heq)

/-- Debug exceptions are not lost. In every run whose calls meet their conditions, every
call keeps what it must; a bit that is set after a part of the run is set at the end,
unless a call after that part succeeded, reported it and was asked to clear it; and the
data raised with a memory violation is what the next query of it that succeeds returns.
In the state reached, a call keeps what it must exactly when it meets its condition. -/
theorem exceptions_kept (u : Uapi) {p : Process} (h : p.Unsized) {ops : List Op}
    (hok : StepsOk (next u) (fun p op => op.Ok u p) p ops) :
    StepsOk (next u) (Keeps u) p ops ∧
    (∀ pre post, ops = pre ++ post → ∀ src bit, (run (next u) p pre).Raised src bit →
      (run (next u) p ops).Raised src bit ∨
      ∃ mid op rest, post = mid ++ op :: rest ∧
        Reported u (run (next u) p (pre ++ mid)) op src bit) ∧
    (∀ pre a mid b post i, ops = pre ++ .raise a :: (mid ++ .queryInfo b :: post) →
      Records u (run (next u) p pre) a i →
      (∀ mid1 op mid2, mid = mid1 ++ op :: mid2 →
        ¬ Answered u (run (next u) p (pre ++ .raise a :: mid1)) op i) →
      Answered u (run (next u) p (pre ++ .raise a :: mid)) (.queryInfo b) i →
      (step u (run (next u) p (pre ++ .raise a :: mid)) (.queryInfo b)).2.info =
          a.data.take b.infoSize ∧
        (step u (run (next u) p (pre ++ .raise a :: mid)) (.queryInfo b)).2.infoSize =
          a.data.length) ∧
    ∀ op, Keeps u (run (next u) p ops) op ↔ op.Ok u (run (next u) p ops) := by
  have hkeeps := stepsOk_keeps h hok
  refine ⟨hkeeps, ?_, ?_, ?_⟩
  · rintro pre post rfl src bit hset
    rw [stepsOk_append] at hkeeps
    rw [run_append]
    simpa only [run_append] using raised_run hkeeps.2 hset
  · rintro pre a mid b post i rfl hrec hnone hanswered
    rw [stepsOk_append] at hkeeps
    obtain ⟨-, hraise, hrest⟩ := hkeeps
    rw [stepsOk_append] at hrest
    simp only [run_append, run_cons] at hrest hnone hanswered ⊢
    have hheld := recorded_run hrest.1 (kfdDbgEvRaise_records hrec) hnone
    exact hrest.2.1.data i a.data hheld hanswered
  · have hend : (run (next u) p ops).Unsized :=
      run_inv (P := Process.Unsized) (fun _ op hp => next_unsized hp op) h ops
    exact keeps_iff hend

/-- A header with one exception of each kind, and one more of devices. The status is the
first field of an entry. -/
def exUapi : Uapi :=
  { maskDevice := {1, 2}, maskProcess := {3}, ecBit := id
    kind := fun code =>
      if code = 0 then some .queue
      else if code = 1 ∨ code = 2 then some .device
      else if code = 3 then some .process
      else none
    queueNew := 0, memoryViolation := 1, processRuntime := 3
    deviceEntrySize := 16, deviceSeen := fun n => Finset.range (8 * min n 8)
    queueEntrySize := 16, queueSeen := fun n => Finset.range (8 * min n 8) }

def exProcess : Process :=
  { debugTrapEnabled := true, exceptionEnableMask := {1}, exceptionStatus := ∅
    runtimeInfo := [], queues := []
    pdds := [{ dev := 5, exceptionStatus := ∅, vmFaultExcData := none
               vmFaultExcDataSize := 0 }] }

def exViolation : RaiseArgs :=
  { eventMask := {1}, dev := 5, sourceId := 0, data := [7], kmemdup := true }

def exSnapshot (fails : Bool) : SnapshotArgs :=
  { given := true, clearMask := {1}, number := 1, entrySize := 16, fails := fun _ => fails }

theorem exProcess_unsized : exProcess.Unsized := by
  intro i pdd hpdd
  cases i with
  | zero =>
    cases hpdd
    rfl
  | succ i => cases hpdd

theorem exceptions_kept_exSnapshot :
    StepsOk (next exUapi) (Keeps exUapi) exProcess
      [.raise exViolation, .deviceSnapshot (exSnapshot false)] := by
  have hok : StepsOk (next exUapi) (fun p op => op.Ok exUapi p) exProcess
      [.raise exViolation, .deviceSnapshot (exSnapshot false)] := by
    refine ⟨trivial, fun _ i x bit _ _ _ hclear => ⟨?_, fun _ _ => rfl⟩, trivial⟩
    rw [Finset.mem_singleton.mp hclear]
    decide
  exact (exceptions_kept exUapi exProcess_unsized hok).1

/-- A snapshot whose copy fails has cleared the bit, and a query of the memory violation
returns no data. -/
theorem exceptions_kept_broken :
    ¬ Keeps exUapi (run (next exUapi) exProcess [.raise exViolation])
        (.deviceSnapshot (exSnapshot true)) ∧
    ¬ Keeps exUapi (run (next exUapi) exProcess [.raise exViolation])
        (.queryInfo { given := true, sourceId := 5, code := 1, clear := true, infoSize := 8
                      copy := true }) := by
  constructor
  · intro h
    rcases h.bits (.device 0) 1 (by unfold Process.Raised; decide) with hset | hrep
    · revert hset
      unfold Process.Raised
      decide
    · exact absurd hrep.1 (by decide)
  · intro h
    have hsize := (h.data 0 [7] (by decide) ⟨⟨rfl, rfl, by decide⟩, by decide⟩).2
    revert hsize
    decide

end Amdkfd.DebugExceptions

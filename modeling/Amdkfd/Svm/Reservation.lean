import Amdkfd.Svm.DeferredWork
import Amdkfd.Lib.Run

/-!
# The reservation of system memory

With XNACK off, a process reserves system memory for its ranges: `svm_range_new` reserves
when it is told to, `svm_range_free` gives back when it is told to, and
`svm_range_switch_xnack_reserve_mem` reserves or gives back everything. `reserved` is what
the ranges of the process contribute to `kfd_mem_limit.system_mem_used`, in bytes. Whether a
reservation is granted depends on the other users of the memory and is part of the input.

For every function that makes or frees ranges, the function of the same name with `Mem` at
the end is what it adds to the reservation.
-/

namespace Amdkfd.Svm

open Lib

/-- `(last - start + 1) << PAGE_SHIFT`. -/
def Range.bytes (r : Range) : Nat :=
  r.pageCount * 4096

/-! ## Setting attributes -/

def svmRangeNewMem (p : Process) (r : Range) (updateMemUsage : Bool) : Int :=
  if !p.xnackEnabled && updateMemUsage then r.bytes else 0

def svmRangeFreeMem (p : Process) (r : Range) (doUnmap : Bool) : Int :=
  if doUnmap && !p.xnackEnabled then -r.bytes else 0

def splitNewLoopMem (p : Process) (al : Alloc) (last : Nat) : Nat → Nat → Nat → Int
  | 0, _, _ => 0
  | rounds + 1, start, n =>
    if last < start then 0
    else
      let l := min last (alignDown (start + p.maxSvmRangePages) p.maxSvmRangePages - 1)
      if al.new n = false then 0
      else
        svmRangeNewMem p (svmRangeNew p start l) true +
          splitNewLoopMem p al last rounds (l + 1) (n + 1)

def svmRangeSplitNewMem (p : Process) (al : Alloc) (start last : Nat) (a : AddState) : Int :=
  splitNewLoopMem p al last (last + 1 - start) start a.svms.next

/-- A round of the loop of `svm_range_add`. The clones and the ranges that are split off are
made with `update_mem_usage` false. -/
def addRoundMem (p : Process) (al : Alloc) (attrs : List Attribute) (start last node : Nat)
    (a : AddState) : Int :=
  let prange := a.svms.heap node
  let r := addNode p al attrs start last node a
  match r.2 with
  | some _ => 0
  | none =>
    if start < prange.itStart then svmRangeSplitNewMem p al start (prange.itStart - 1) r.1 else 0

def addLoopMem (p : Process) (al : Alloc) (attrs : List Attribute) (last : Nat) :
    List Nat → Nat → Nat → AddState → Int
  | [], _, _, _ => 0
  | node :: nodes, iterStart, start, a =>
    let prange := a.svms.heap node
    if iterStart ≤ prange.itLast ∧ prange.itStart ≤ last then
      let r := addRound p al attrs start last node a
      let mem := addRoundMem p al attrs start last node a
      match r.2 with
      | some _ => mem
      | none => mem + addLoopMem p al attrs last nodes start (min prange.itLast last + 1) r.1
    else addLoopMem p al attrs last nodes iterStart start a

def freeAllMem (p : Process) (s : Svms) (ids : List Nat) (doUnmap : Bool) : Int :=
  (ids.map fun id => svmRangeFreeMem p (s.heap id) doUnmap).sum

/-- The end of `svm_range_add` after an error. -/
def addUndoMem (p : Process) (a : AddState) : Int :=
  freeAllMem p a.svms a.insert false + freeAllMem p a.svms a.news true

def svmRangeAddMem (p : Process) (al : Alloc) (attrs : List Attribute) (start last : Nat)
    (s : Svms) : Int :=
  let a : AddState :=
    { svms := s, insert := [], news := [], update := [], remove := [], remap := [] }
  let r := addLoop p al attrs last s.tree start start a
  let mem := addLoopMem p al attrs last s.tree start start a
  match r.2.2 with
  | some _ => mem + addUndoMem p r.1
  | none =>
    let mem := mem + if r.2.1 ≤ last then svmRangeSplitNewMem p al r.2.1 last r.1 else 0
    let r := if r.2.1 ≤ last then svmRangeSplitNew p al r.2.1 last r.1 else (r.1, none)
    match r.2 with
    | some _ => mem + addUndoMem p r.1
    | none => mem

def svmRangeSetAttrMem (p : Process) (al : Alloc) (valid : Option Errno) (attrs : List Attribute)
    (start size : Nat) (s : Svms) : Int :=
  match svmRangeCheckAttr p attrs with
  | some _ => 0
  | none =>
    match valid with
    | some _ => 0
    | none =>
      let r := svmRangeAdd p al attrs start (start + size - 1) s
      let mem := svmRangeAddMem p al attrs start (start + size - 1) s
      match r.2 with
      | some _ => mem
      | none => mem + freeAllMem p r.1.svms r.1.remove false

/-! ## The deferred list -/

def svmRangeHandleListOpMem (p : Process) (s : Svms) (id : Nat) : Int :=
  match (s.heap id).workOp with
  | .unmapRange => svmRangeFreeMem p (s.heap id) true
  | _ => 0

def handleChildrenMem (p : Process) (parent : Nat) : List Nat → Svms → Int
  | [], _ => 0
  | pchild :: children, s =>
    let s := s.write parent { s.heap parent with children := children }
    svmRangeHandleListOpMem p s pchild +
      handleChildrenMem p parent children (svmRangeHandleListOp s pchild)

def handleDeferredMem (p : Process) (s : Svms) (id : Nat) : Int :=
  handleChildrenMem p id (s.heap id).children s +
    svmRangeHandleListOpMem p (handleChildren id (s.heap id).children s) id

/-! ## Page faults -/

structure Account where
  proc : Process
  mm : Mm
  reserved : Int

def svmRangeFromAddr (s : Svms) (addr : Nat) : Option Nat :=
  match s.tree.find? fun id => (s.heap id).itStart ≤ addr ∧ addr ≤ (s.heap id).itLast with
  | none => none
  | some id =>
    if (s.heap id).Has addr then some id
    else (s.heap id).children.find? fun pchild => (s.heap pchild).Has addr

/-- A page fault: the page, what `xnack_enabled` was before the locks were taken, the VMA of
the page if there is one, from its first page up to but not including its last, the BO that is
in the way of the range around the page, and the outcome of the allocations. -/
structure Fault where
  addr : Nat
  xnackSeen : Bool
  vma : Option (Nat × Nat)
  vma_has : ∀ v ∈ vma, v.1 ≤ addr ∧ addr < v.2
  isHeapStack : Bool
  bo : Option (Nat × Nat)
  newOk : Bool
  gpuOk : Bool

/-- The nodes that end before the address or at it come first in the tree. -/
def endsBefore (s : Svms) (addr : Nat) (id : Nat) : Bool :=
  (s.heap id).itLast ≤ addr

def limitAfter (s : Svms) (addr endLimit : Nat) : Nat :=
  match (s.tree.dropWhile (endsBefore s addr)).head? with
  | some node => min endLimit (s.heap node).itStart
  | none => endLimit

def svmRangeGetRangeBoundaries (s : Svms) (f : Fault) : Except Errno (Nat × Nat) :=
  match f.vma with
  | none => .error .efault
  | some (vmStart, vmEnd) =>
    let startLimit := max vmStart (alignDown f.addr 512)
    let endLimit := limitAfter s f.addr (min vmEnd (alignUp (f.addr + 1) 512))
    match (s.tree.takeWhile (endsBefore s f.addr)).getLast? with
    | none => .ok (startLimit, endLimit - 1)
    | some node =>
      if f.addr ≤ (s.heap node).itLast then .error .efault
      else .ok (max startLimit ((s.heap node).itLast + 1), endLimit - 1)

def unregisteredPages (s : Svms) (f : Fault) : Option (Nat × Nat) :=
  match svmRangeGetRangeBoundaries s f with
  | .error _ => none
  | .ok (start, last) =>
    match f.bo with
    | none => some (start, last)
    | some (boStart, boLast) =>
      if boStart ≤ f.addr ∧ f.addr ≤ boLast then none else some (f.addr, f.addr)

def unregisteredRange (p : Process) (f : Fault) (start last : Nat) : Range :=
  let r := svmRangeNew p start last
  if f.isHeapStack then { r with attrs := { r.attrs with preferredLoc := locationSysmem } } else r

def svmRangeCreateUnregisteredRange (st : Account) (f : Fault) : Account × Option Errno :=
  match unregisteredPages st.mm.svms f with
  | none => (st, some .efault)
  | some (start, last) =>
    if f.newOk = false then (st, some .efault)
    else
      let r := svmRangeNew st.proc start last
      let st := { st with reserved := st.reserved + svmRangeNewMem st.proc r true }
      if f.gpuOk = false then
        ({ st with reserved := st.reserved + svmRangeFreeMem st.proc r true }, some .efault)
      else
        let s := st.mm.svms.push (unregisteredRange st.proc f start last)
        let id := st.mm.svms.next
        ({ st with mm := { st.mm with svms := svmRangeAddNotifier (svmRangeAddToSvms s id) id } },
          none)

/-- `svm_range_restore_pages` up to the point where it has a range. The mode can change between
the test and the locks. -/
def svmRangeRestorePages (st : Account) (f : Fault) : Account × Option Errno :=
  if f.xnackSeen = false then (st, some .efault)
  else
    match svmRangeFromAddr st.mm.svms f.addr with
    | some _ => (st, none)
    | none => svmRangeCreateUnregisteredRange st f

/-! ## Switching XNACK -/

/-- An unmapped interval and the range whose notifier is called for it. -/
structure Notification where
  munmap : Munmap
  id : Nat

def deliver (p : Process) (mm : Mm) (n : Notification) : Mm :=
  if n.id ∈ mm.svms.list then
    svmRangeNotifyUnmap p n.munmap.ok n.munmap.start n.munmap.last mm n.id
  else mm

/-- The local variables of `svm_range_switch_xnack_reserve_mem`, with the reservation and the
number of requests so far. -/
structure Switch where
  reserved : Int
  reservedSize : Int
  requests : Nat

/-- One range in `svm_range_switch_xnack_reserve_mem`. `grants` has the answers to the
requests. -/
def switchOne (xnackEnabled : Bool) (grants : Nat → Bool) (r : Range) (x : Switch) :
    Switch × Option Errno :=
  if xnackEnabled then ({ x with reserved := x.reserved - r.bytes }, none)
  else if grants x.requests then
    ({ reserved := x.reserved + r.bytes
       reservedSize := x.reservedSize + r.bytes
       requests := x.requests + 1 }, none)
  else ({ x with requests := x.requests + 1 }, some .enomem)

/-- The children of a range, and the range itself. -/
def switchFamily (xnackEnabled : Bool) (grants : Nat → Bool) (s : Svms) :
    List Nat → Switch → Switch × Option Errno
  | [], x => (x, none)
  | id :: ids, x =>
    match switchOne xnackEnabled grants (s.heap id) x with
    | (x, some e) => (x, some e)
    | (x, none) => switchFamily xnackEnabled grants s ids x

/-- The loop of `svm_range_switch_xnack_reserve_mem`. It holds the lock of the range that it
is at, and the notifiers of all ranges are called in between. -/
def switchLoop (p : Process) (xnackEnabled : Bool) (grants : Nat → Bool)
    (between : Nat → List Notification) : List Nat → Mm → Switch → Mm × Switch × Option Errno
  | [], mm, x => (mm, x, none)
  | id :: ids, mm, x =>
    let mm := (between id).foldl (deliver p) mm
    match switchFamily xnackEnabled grants mm.svms ((mm.svms.heap id).children ++ [id]) x with
    | (x, some e) => (mm, x, some e)
    | (x, none) => switchLoop p xnackEnabled grants between ids mm x

def svmRangeSwitchXnackReserveMem (st : Account) (xnackEnabled : Bool) (grants : Nat → Bool)
    (between : Nat → List Notification) : Account × Option Errno :=
  match switchLoop st.proc xnackEnabled grants between st.mm.svms.list st.mm
      { reserved := st.reserved, reservedSize := 0, requests := 0 } with
  | (mm, x, some e) => ({ st with mm := mm, reserved := x.reserved - x.reservedSize }, some e)
  | (mm, x, none) =>
    ({ proc := { st.proc with xnackEnabled := xnackEnabled }, mm := mm, reserved := x.reserved },
      none)

/-- `kfd_ioctl_set_xnack_mode`. `queuesEmpty` is about `p->pqm.queues`, and `supported` is the
result of `kfd_process_xnack_mode`. -/
def kfdIoctlSetXnackMode (st : Account) (xnackEnabled : Int) (queuesEmpty supported : Bool)
    (grants : Nat → Bool) (between : Nat → List Notification) : Account × Option Errno :=
  if 0 ≤ xnackEnabled then
    if queuesEmpty = false then (st, some .ebusy)
    -- the `bool` is converted to an `int`
    else if (if st.proc.xnackEnabled then (1 : Int) else 0) = xnackEnabled then (st, none)
    else if xnackEnabled ≠ 0 ∧ supported = false then (st, some .eperm)
    else svmRangeSwitchXnackReserveMem st (xnackEnabled ≠ 0) grants between
  else (st, none)

/-! ## Steps -/

/-- The arguments of `KFD_IOCTL_SVM_OP_SET_ATTR`, in pages, and the outcome of what it calls:
`finish` is that of the migrations and mappings after the transaction. -/
structure SetAttrArgs where
  start : Nat
  size : Nat
  attrs : List Attribute
  al : Alloc
  valid : Option Errno
  finish : Option Errno

/-- `kfd_ioctl_svm` with `KFD_IOCTL_SVM_OP_SET_ATTR`. `svm_range_set_attr` waits until the
deferred list is empty. -/
def kfdIoctlSvm (st : Account) (c : SetAttrArgs) : Account × Option Errno :=
  if c.start = 0 ∨ c.size = 0 then (st, some .einval)
  else
    match svmRangeCheckAttr st.proc c.attrs, st.mm.deferred with
    | some e, _ => (st, some e)
    | none, _ :: _ => (st, none)
    | none, [] =>
      let s := st.mm.svms
      let r := svmRangeSetAttr st.proc c.al c.valid c.attrs c.start c.size s
      let st :=
        { st with
          mm := { st.mm with svms := r.1 }
          reserved := st.reserved +
            svmRangeSetAttrMem st.proc c.al c.valid c.attrs c.start c.size s }
      match r.2 with
      | .error e => (st, some e)
      | .ok _ => (st, c.finish)

def deferredListRound (st : Account) : Account :=
  match st.mm.deferred with
  | [] => st
  | id :: deferred =>
    { st with
      mm := { st.mm with svms := handleDeferred st.mm.svms id, deferred := deferred }
      reserved := st.reserved + handleDeferredMem st.proc st.mm.svms id }

/-- The fields that mapping, migrating and evicting write. -/
structure Placement where
  actualLoc : UInt32
  vramPages : UInt64
  dmaAddr : List (Option (List UInt64))
  svmBo : Option Nat
  ttmRes : Option Nat
  offset : Nat
  mappedToGpu : Bool
  invalid : Nat

def Range.place (r : Range) (w : Placement) : Range :=
  { r with
    actualLoc := w.actualLoc
    vramPages := w.vramPages
    dmaAddr := w.dmaAddr
    svmBo := w.svmBo
    ttmRes := w.ttmRes
    offset := w.offset
    mappedToGpu := w.mappedToGpu
    invalid := w.invalid }

inductive Op
  | setAttr (c : SetAttrArgs)
  | notify (n : Notification)
  | work
  | fault (f : Fault)
  | setXnackMode (xnackEnabled : Int) (queuesEmpty supported : Bool) (grants : Nat → Bool)
      (between : Nat → List Notification)
  | place (id : Nat) (w : Placement) (pte : Nat → Nat → Bool)

/-- A step, with the error that it returns. -/
def opResult (st : Account) : Op → Account × Option Errno
  | .setAttr c => kfdIoctlSvm st c
  | .notify n => ({ st with mm := deliver st.proc st.mm n }, none)
  | .work => (deferredListRound st, none)
  | .fault f => svmRangeRestorePages st f
  | .setXnackMode v queuesEmpty supported grants between =>
    kfdIoctlSetXnackMode st v queuesEmpty supported grants between
  | .place id w pte =>
    ({ st with
      mm := { st.mm with
        svms := st.mm.svms.write id ((st.mm.svms.heap id).place w)
        pte := pte } }, none)

def opStep (st : Account) (op : Op) : Account :=
  (opResult st op).1

end Amdkfd.Svm

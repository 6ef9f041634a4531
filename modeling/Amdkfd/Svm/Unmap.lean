import Amdkfd.Svm.SetAttr

/-!
# Unmapping by the CPU

The MMU notifier of a range and the deferred list of `kfd_svm.c`. A notification
of an unmapped interval splits the range, and the parts wait as its children until
`svm_range_deferred_list_work` inserts or frees them. The task that unmaps holds a
reference on its `mm`, so `mmget_not_zero` succeeds.
-/

namespace Amdkfd.Svm

open Lib

/-- The ranges of a process, the deferred list, and the page-table entries that
are valid, by GPU index and page. -/
structure Mm where
  svms : Svms
  deferred : List Nat
  pte : Nat → Nat → Bool

/-! ## The page tables -/

/-- The page tables without the entries of one GPU for an interval. -/
def clearPtes (pte : Nat → Nat → Bool) (gpuidx start last : Nat) : Nat → Nat → Bool :=
  fun g x => if g = gpuidx ∧ start ≤ x ∧ x ≤ last then false else pte g x

/-- The GPUs of `bitmap_access` and `bitmap_aip`, in order. -/
def Attrs.gpus (a : Attrs) : List Nat :=
  (List.range maxGpuInstance).filter fun i => i ∈ a.access ∨ i ∈ a.aip

/-- The loop of `svm_range_unmap_from_gpus`. `ok` has the outcome of
`svm_range_unmap_from_gpu` and of its fence, by GPU index. -/
def unmapFromGpusLoop (p : Process) (ok : Nat → Bool) (start last : Nat) :
    List Nat → (Nat → Nat → Bool) → (Nat → Nat → Bool) × Option Errno
  | [], pte => (pte, none)
  | gpuidx :: gpus, pte =>
    if p.gpuIds.length ≤ gpuidx then (pte, some .einval)
    else if ok gpuidx = false then (pte, some .other)
    else unmapFromGpusLoop p ok start last gpus (clearPtes pte gpuidx start last)

def svmRangeUnmapFromGpus (p : Process) (ok : Nat → Bool) (id start last : Nat) (mm : Mm) :
    Mm × Option Errno :=
  let prange := mm.svms.heap id
  if prange.mappedToGpu = false then (mm, none)
  else
    let prange' :=
      if prange.start = start ∧ prange.last = last then { prange with mappedToGpu := false }
      else prange
    let r := unmapFromGpusLoop p ok start last prange.attrs.gpus mm.pte
    ({ mm with svms := mm.svms.write id prange', pte := r.1 }, r.2)

/-! ## The notification -/

def svmRangeAddChild (s : Svms) (prange pchild : Nat) (op : WorkOp) : Svms :=
  let s := s.write pchild { s.heap pchild with workOp := op }
  s.write prange { s.heap prange with children := (s.heap prange).children ++ [pchild] }

/-- A split of the range at `id` in `svm_range_unmap_split`, with the address of
the new range. Allocations succeed. -/
def unmapSplitAt (p : Process) (id start last : Nat) (s : Svms) : Svms × Nat :=
  match svmRangeSplit p true true (s.heap id) start last with
  | .error _ => (s, id)
  | .ok (prange, new) => ((s.write id prange).push new, s.next)

def svmRangeUnmapSplit (p : Process) (parent prange start last : Nat) (s : Svms) : Svms :=
  let r := s.heap prange
  if r.workOp = .unmapRange then s
  else if r.last < start ∨ last < r.start then s
  else
    let cutTail := if r.start < start then unmapSplitAt p prange r.start (start - 1) s
      else (s, prange)
    let s := cutTail.1
    let tail := cutTail.2
    let cutHead := if last < (s.heap tail).last then
        unmapSplitAt p tail (last + 1) (s.heap tail).last s
      else (s, prange)
    let s := cutHead.1
    let head := cutHead.2
    if head ≠ prange ∧ tail ≠ prange then
      svmRangeAddChild (svmRangeAddChild s parent head .unmapRange) parent tail .addRange
    else if tail ≠ prange then svmRangeAddChild s parent tail .unmapRange
    else if head ≠ prange then svmRangeAddChild s parent head .unmapRange
    else if parent ≠ prange then s.write prange { s.heap prange with workOp := .unmapRange }
    else s

/-- What `svm_range_unmap_from_cpu` does with a child, and with the range
itself. -/
def unmapOne (p : Process) (ok : Nat → Nat → Bool) (parent start last : Nat) (mm : Mm)
    (id : Nat) : Mm :=
  let prange := mm.svms.heap id
  let s := max start prange.start
  let l := min last prange.last
  let mm := if s ≤ l then (svmRangeUnmapFromGpus p (ok id) id s l mm).1 else mm
  { mm with svms := svmRangeUnmapSplit p parent id start last mm.svms }

/-- The loop of `svm_range_unmap_from_cpu` over the children from the `i`-th on,
with a bound on its rounds. The children that a round adds are visited too. -/
def unmapChildren (p : Process) (ok : Nat → Nat → Bool) (parent start last : Nat) :
    Nat → Nat → Mm → Mm
  | 0, _, mm => mm
  | rounds + 1, i, mm =>
    match (mm.svms.heap parent).children[i]? with
    | none => mm
    | some pchild =>
      unmapChildren p ok parent start last rounds (i + 1)
        (unmapOne p ok parent start last mm pchild)

def svmRangeAddListWork (id : Nat) (op : WorkOp) (mm : Mm) : Mm :=
  let prange := mm.svms.heap id
  if id ∈ mm.deferred then
    if op ≠ .null ∧ prange.workOp ≠ .unmapRange then
      { mm with svms := mm.svms.write id { prange with workOp := op } }
    else mm
  else
    { mm with
      svms := mm.svms.write id { prange with workOp := op }
      deferred := mm.deferred ++ [id] }

/-- `svm_range_unmap_from_cpu`. A child adds at most two children, which add
none. -/
def svmRangeUnmapFromCpu (p : Process) (ok : Nat → Nat → Bool) (id start last : Nat) (mm : Mm) :
    Mm :=
  let prange := mm.svms.heap id
  let unmapParent := start ≤ prange.start ∧ prange.last ≤ last
  let mm := unmapChildren p ok id start last (3 * prange.children.length) 0 mm
  let mm := unmapOne p ok id start last mm id
  svmRangeAddListWork id (if unmapParent then .unmapRange else .updateRangeNotifier) mm

/-- `svm_range_cpu_invalidate_pagetables` for `MMU_NOTIFY_UNMAP` of the pages from
`start` to `last`, if they are of interest to the notifier of the range. -/
def svmRangeNotifyUnmap (p : Process) (ok : Nat → Nat → Bool) (start last : Nat) (mm : Mm)
    (id : Nat) : Mm :=
  let prange := mm.svms.heap id
  if prange.notifierStart ≤ last ∧ start ≤ prange.notifierLast then
    svmRangeUnmapFromCpu p ok id (max prange.notifierStart start) (min prange.notifierLast last) mm
  else mm

/-- An interval of pages that a process unmaps. `ok` has the outcomes of the
page-table updates, by range and GPU index. -/
structure Munmap where
  start : Nat
  last : Nat
  le : start ≤ last
  ok : Nat → Nat → Bool

/-- An unmapped interval: the notifiers are called by their address. -/
def notifyUnmap (p : Process) (mm : Mm) (i : Munmap) : Mm :=
  mm.svms.tree.foldl (svmRangeNotifyUnmap p i.ok i.start i.last) mm

/-! ## The deferred list -/

/-- `svm_range_update_notifier_and_interval_tree`. A notifier from page 0 counts
as not inserted. -/
def svmRangeUpdateNotifierAndIntervalTree (s : Svms) (id : Nat) : Svms :=
  let prange := s.heap id
  if prange.start = prange.notifierStart ∧ prange.last = prange.notifierLast then s
  else
    let s :=
      if prange.notifierStart ≠ 0 ∧ prange.notifierLast ≠ 0 then
        { s with tree := s.tree.erase id }
      else s
    let s := s.write id { prange with itStart := prange.start, itLast := prange.last }
    svmRangeAddNotifier { s with tree := treeInsert s.heap id s.tree } id

def svmRangeHandleListOp (s : Svms) (id : Nat) : Svms :=
  match (s.heap id).workOp with
  | .null => s
  | .unmapRange => svmRangeUnlink s id
  | .updateRangeNotifier => svmRangeUpdateNotifierAndIntervalTree s id
  | .addRange => svmRangeAddNotifier (svmRangeAddToSvms s id) id

def handleChildren (parent : Nat) : List Nat → Svms → Svms
  | [], s => s
  | pchild :: children, s =>
    handleChildren parent children
      (svmRangeHandleListOp (s.write parent { s.heap parent with children := children }) pchild)

def handleDeferred (s : Svms) (id : Nat) : Svms :=
  svmRangeHandleListOp (handleChildren id (s.heap id).children s) id

def svmRangeDeferredListWork (mm : Mm) : Mm :=
  { mm with svms := mm.deferred.foldl handleDeferred mm.svms, deferred := [] }

end Amdkfd.Svm

import Amdkfd.Svm.Range
import Amdkfd.Lib.PageMap

/-!
# Setting the attributes of an interval

`svm_range_set_attr` of `kfd_svm.c` as far as the set of ranges goes:
`svm_range_add` walks the interval tree, clones and splits the ranges that stick
out of the interval and creates ranges for the holes, all on objects of its own;
then the caller inserts the new ranges, applies the attributes and removes the
ranges that were replaced. Ranges live in a heap, and the lists hold their
addresses.
-/

namespace Amdkfd.Svm

open Lib

/-! ## The ranges of a process -/

/-- `struct svm_range_list`: the list and the interval tree, with the ranges at
their addresses and the next address that an allocation returns. The tree is
given by its nodes in order. -/
structure Svms where
  heap : Nat → Range
  next : Nat
  list : List Nat
  tree : List Nat

def Svms.write (s : Svms) (id : Nat) (r : Range) : Svms :=
  { s with heap := Function.update s.heap id r }

def Svms.push (s : Svms) (r : Range) : Svms :=
  { s.write s.next r with next := s.next + 1 }

/-- `interval_tree_insert`: after the nodes that do not start later. -/
def treeInsert (heap : Nat → Range) (id : Nat) : List Nat → List Nat
  | [] => [id]
  | x :: xs =>
    if (heap x).itStart ≤ (heap id).itStart then x :: treeInsert heap id xs else id :: x :: xs

def svmRangeAddToSvms (s : Svms) (id : Nat) : Svms :=
  let r := s.heap id
  let s := s.write id { r with itStart := r.start, itLast := r.last }
  { s with list := s.list ++ [id], tree := treeInsert s.heap id s.tree }

def svmRangeAddNotifier (s : Svms) (id : Nat) : Svms :=
  let r := s.heap id
  s.write id { r with notifierStart := r.start, notifierLast := r.last }

/-- `svm_range_unlink`. A node that starts at page 0 counts as not inserted. -/
def svmRangeUnlink (s : Svms) (id : Nat) : Svms :=
  { s with
    list := s.list.erase id
    tree :=
      if (s.heap id).itStart ≠ 0 ∧ (s.heap id).itLast ≠ 0 then s.tree.erase id else s.tree }

/-! ## Adding an interval -/

/-- The outcome of the allocations: of the range at an address, and of its DMA
address arrays. -/
structure Alloc where
  new : Nat → Bool
  dma : Nat → Bool

structure AddState where
  svms : Svms
  insert : List Nat
  news : List Nat
  update : List Nat
  remove : List Nat
  remap : List Nat

def alignDown (x a : Nat) : Nat :=
  x / a * a

def alignUp (x a : Nat) : Nat :=
  (x + a - 1) / a * a

def splitNewLoop (p : Process) (al : Alloc) (last : Nat) : Nat → Nat → AddState →
    AddState × Option Errno
  | 0, _, a => (a, none)
  | rounds + 1, start, a =>
    if last < start then (a, none)
    else
      let l := min last (alignDown (start + p.maxSvmRangePages) p.maxSvmRangePages - 1)
      let n := a.svms.next
      if al.new n = false then (a, some .enomem)
      else
        splitNewLoop p al last rounds (l + 1)
          { a with
            svms := a.svms.push (svmRangeNew p start l)
            news := n :: a.news
            update := n :: a.update }

/-- `svm_range_split_new`. Each round makes at least one page. -/
def svmRangeSplitNew (p : Process) (al : Alloc) (start last : Nat) (a : AddState) :
    AddState × Option Errno :=
  splitNewLoop p al last (last + 1 - start) start a

/-- The range is mapped with huge pages, and a cut before `page` leaves part of
one. -/
def cutsHugePage (r : Range) (page edge : Nat) : Bool :=
  let lastAlignDown := alignDown r.last 512
  let startAlign := alignUp r.start 512
  startAlign < lastAlignDown && startAlign < page && page < lastAlignDown && edge % 512 ≠ 0

def svmRangeSplitHead (p : Process) (al : Alloc) (id newStart : Nat) (a : AddState) :
    AddState × Option Errno :=
  let prange := a.svms.heap id
  let n := a.svms.next
  match svmRangeSplit p (al.new n) (al.dma n) prange newStart prange.last with
  | .error e => (a, some e)
  | .ok (prange', head) =>
    ({ a with
        svms := (a.svms.write id prange').push head
        insert := n :: a.insert
        remap := if cutsHugePage prange (head.last + 1) head.last then n :: a.remap else a.remap },
      none)

def svmRangeSplitTail (p : Process) (al : Alloc) (id newLast : Nat) (a : AddState) :
    AddState × Option Errno :=
  let prange := a.svms.heap id
  let n := a.svms.next
  match svmRangeSplit p (al.new n) (al.dma n) prange prange.start newLast with
  | .error e => (a, some e)
  | .ok (prange', tail) =>
    ({ a with
        svms := (a.svms.write id prange').push tail
        insert := n :: a.insert
        remap := if cutsHugePage prange tail.start tail.start then n :: a.remap else a.remap },
      none)

/-- The branch of `svm_range_add` for a node that sticks out of the interval:
clone it, and split the clone. -/
def replaceNode (p : Process) (al : Alloc) (start last node : Nat) (a : AddState) :
    AddState × Option Errno :=
  let old := a.svms.heap node
  let n := a.svms.next
  if al.new n = false ∨ al.dma n = false then (a, some .enomem)
  else
    let a :=
      { a with
        svms := a.svms.push (svmRangeClone p old)
        remove := node :: a.remove
        insert := n :: a.insert
        update := n :: a.update }
    let r := if old.itStart < start then svmRangeSplitHead p al n start a else (a, none)
    match r.2 with
    | some e => (r.1, some e)
    | none => if last < old.itLast then svmRangeSplitTail p al n last r.1 else (r.1, none)

def addNode (p : Process) (al : Alloc) (attrs : List Attribute) (start last node : Nat)
    (a : AddState) : AddState × Option Errno :=
  let prange := a.svms.heap node
  if svmRangeIsSameAttrs p prange.attrs attrs ∧ prange.mappedToGpu then (a, none)
  else if prange.itStart < start ∨ last < prange.itLast then replaceNode p al start last node a
  else ({ a with update := node :: a.update }, none)

/-- A round of the loop of `svm_range_add`: the node, then the hole before
it. -/
def addRound (p : Process) (al : Alloc) (attrs : List Attribute) (start last node : Nat)
    (a : AddState) : AddState × Option Errno :=
  let prange := a.svms.heap node
  let r := addNode p al attrs start last node a
  match r.2 with
  | some e => (r.1, some e)
  | none =>
    if start < prange.itStart then svmRangeSplitNew p al start (prange.itStart - 1) r.1
    else (r.1, none)

/-- The loop of `svm_range_add` over the nodes of the tree. The next node is
looked up before `start` moves on, hence the second bound `iterStart`. It
returns the new `start`. -/
def addLoop (p : Process) (al : Alloc) (attrs : List Attribute) (last : Nat) :
    List Nat → Nat → Nat → AddState → AddState × Nat × Option Errno
  | [], _, start, a => (a, start, none)
  | node :: nodes, iterStart, start, a =>
    let prange := a.svms.heap node
    if iterStart ≤ prange.itLast ∧ prange.itStart ≤ last then
      let r := addRound p al attrs start last node a
      match r.2 with
      | some e => (r.1, start, some e)
      | none => addLoop p al attrs last nodes start (min prange.itLast last + 1) r.1
    else addLoop p al attrs last nodes iterStart start a

def svmRangeAdd (p : Process) (al : Alloc) (attrs : List Attribute) (start last : Nat)
    (s : Svms) : AddState × Option Errno :=
  let r := addLoop p al attrs last s.tree start start
    { svms := s, insert := [], news := [], update := [], remove := [], remap := [] }
  match r.2.2 with
  | some e => (r.1, some e)
  | none =>
    let r := if r.2.1 ≤ last then svmRangeSplitNew p al r.2.1 last r.1 else (r.1, none)
    match r.2 with
    | some e => (r.1, some e)
    | none => ({ r.1 with insert := r.1.news ++ r.1.insert, news := [] }, none)

/-! ## The transaction -/

def svmRangeApplyAttrs (p : Process) (attrs : List Attribute) (s : Svms) (id : Nat) : Svms :=
  s.write id { s.heap id with attrs := applyAttrs p attrs (s.heap id).attrs }

/-- What is left to do for `svm_range_set_attr` after the transaction: the
ranges to migrate and map, those to map again, and whether the mappings have
changed. -/
structure SetAttrWork where
  update : List Nat
  remap : List Nat
  updateMapping : Bool

/-- `svm_range_set_attr` up to the end of its transaction. `valid` is the result
of `svm_range_is_valid`. -/
def svmRangeSetAttr (p : Process) (al : Alloc) (valid : Option Errno) (attrs : List Attribute)
    (start size : Nat) (s : Svms) : Svms × Except Errno SetAttrWork :=
  match svmRangeCheckAttr p attrs with
  | some e => (s, .error e)
  | none =>
    match valid with
    | some e => (s, .error e)
    | none =>
      let r := svmRangeAdd p al attrs start (start + size - 1) s
      match r.2 with
      | some e => (r.1.svms, .error e)
      | none =>
        let s := r.1.insert.foldl (fun s id => svmRangeAddNotifier (svmRangeAddToSvms s id) id)
          r.1.svms
        let s := r.1.update.foldl (svmRangeApplyAttrs p attrs) s
        let s := r.1.remove.foldl svmRangeUnlink s
        (s, .ok
          { update := r.1.update
            remap := r.1.remap
            updateMapping := (!r.1.update.isEmpty && attrs.any (updatesMapping p)) ||
              (!p.xnackEnabled && !r.1.remap.isEmpty) })

end Amdkfd.Svm

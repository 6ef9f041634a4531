import Mathlib.Data.BitVec
import Amdkfd.Basic
import Amdkfd.Lib.Bitmap

/-!
# SVM ranges

`struct svm_range` of `kfd_svm.h` and the operations on one range: creation,
cloning, splitting, and the user's attributes. Page numbers and page counts are
natural numbers. An allocation that can fail is a Boolean argument.
-/

namespace Amdkfd.Svm

open Lib

def locationSysmem : UInt32 := 0

def locationUndefined : UInt32 := 0xffffffff

def flagHostAccess : BitVec 32 := 1

def flagCoherent : BitVec 32 := 2

/-- What a range reads of its process: the XNACK mode, the GPU ids by index, the
GPUs that support SVM, and the largest number of pages of a new range. -/
structure Process where
  xnackEnabled : Bool
  gpuIds : List UInt32
  bitmapSupported : Bitmap
  maxSvmRangePages : Nat
  maxSvmRangePages_pos : 0 < maxSvmRangePages

theorem maxSvmRangePages_512 : 0 < 512 := by decide

def gpuidxFromGpuid (p : Process) (gpuId : UInt32) : Option Nat :=
  p.gpuIds.findIdx? (· == gpuId)

/-! ## Attributes -/

/-- The attributes of a range. No GPU has both kinds of access, and the
granularity is at most 63. -/
@[ext]
structure Attrs where
  flags : BitVec 32
  preferredLoc : UInt32
  prefetchLoc : UInt32
  granularity : Nat
  access : Bitmap
  aip : Bitmap
  disjoint : ∀ i ∈ access, i ∉ aip
  granularity_le : granularity ≤ 0x3f
  deriving DecidableEq

/-- `enum kfd_ioctl_svm_attr_type`. -/
inductive AttrType
  | preferredLoc
  | prefetchLoc
  | access
  | accessInPlace
  | noAccess
  | setFlags
  | clrFlags
  | granularity
  | unknown (type : Nat)
  deriving DecidableEq, Repr

structure Attribute where
  type : AttrType
  value : UInt32
  deriving DecidableEq, Repr

/-- The round of `svm_range_check_attr` for one attribute. A location or GPU that
needs no look-up passes. -/
def checkAttr (p : Process) (attr : Attribute) : Option Errno :=
  let lookup : Option Errno :=
    match gpuidxFromGpuid p attr.value with
    | none => some .einval
    | some gpuidx => if gpuidx ∈ p.bitmapSupported then none else some .einval
  match attr.type with
  | .preferredLoc =>
    if attr.value ≠ locationSysmem ∧ attr.value ≠ locationUndefined then lookup else none
  | .prefetchLoc => if attr.value ≠ locationSysmem then lookup else none
  | .access => lookup
  | .accessInPlace => lookup
  | .noAccess => lookup
  | .setFlags => none
  | .clrFlags => none
  | .granularity => none
  | .unknown _ => some .einval

def svmRangeCheckAttr (p : Process) (attrs : List Attribute) : Option Errno :=
  attrs.findSome? (checkAttr p)

/-- The new access bitmaps: GPU `gpuidx` gets access of the one kind or the
other, or none. -/
def Attrs.setAccess (a : Attrs) (gpuidx : Nat) (type : AttrType) : Attrs :=
  match type with
  | .access =>
    { a with
      access := bitmapSet a.access gpuidx 1
      aip := bitmapClear a.aip gpuidx 1
      disjoint := fun i hi => by
        simp only [mem_bitmapSet, mem_bitmapClear] at hi ⊢
        rintro ⟨haip, hne⟩
        rcases hi with hi | hi
        · exact a.disjoint i hi haip
        · exact hne hi }
  | .accessInPlace =>
    { a with
      access := bitmapClear a.access gpuidx 1
      aip := bitmapSet a.aip gpuidx 1
      disjoint := fun i hi => by
        simp only [mem_bitmapSet, mem_bitmapClear, not_or] at hi ⊢
        exact ⟨a.disjoint i hi.1, hi.2⟩ }
  | _ =>
    { a with
      access := bitmapClear a.access gpuidx 1
      aip := bitmapClear a.aip gpuidx 1
      disjoint := fun i hi => by
        simp only [mem_bitmapClear] at hi ⊢
        exact fun haip => a.disjoint i hi.1 haip.1 }

/-- The round of `svm_range_apply_attrs` for one attribute. -/
def applyAttr (p : Process) (a : Attrs) (attr : Attribute) : Attrs :=
  let setAccess :=
    match gpuidxFromGpuid p attr.value with
    | none => a
    | some gpuidx => a.setAccess gpuidx attr.type
  match attr.type with
  | .preferredLoc => { a with preferredLoc := attr.value }
  | .prefetchLoc => { a with prefetchLoc := attr.value }
  | .access => setAccess
  | .accessInPlace => setAccess
  | .noAccess => setAccess
  | .setFlags => { a with flags := a.flags ||| attr.value.toBitVec }
  | .clrFlags => { a with flags := a.flags &&& ~~~attr.value.toBitVec }
  | .granularity =>
    { a with granularity := min attr.value.toNat 0x3f, granularity_le := Nat.min_le_right _ _ }
  | .unknown _ => a

def updatesMapping (p : Process) (attr : Attribute) : Bool :=
  match attr.type with
  | .access => !p.xnackEnabled
  | .accessInPlace => !p.xnackEnabled
  | .noAccess => !p.xnackEnabled
  | .setFlags => true
  | .clrFlags => true
  | _ => false

/-- The effect of `svm_range_apply_attrs` on the attributes. -/
def applyAttrs (p : Process) (attrs : List Attribute) (a : Attrs) : Attrs :=
  attrs.foldl (applyAttr p) a

/-- The round of `svm_range_is_same_attrs` for one attribute. A prefetch always
counts as a change. -/
def isSameAttr (p : Process) (a : Attrs) (attr : Attribute) : Bool :=
  match attr.type with
  | .preferredLoc => a.preferredLoc == attr.value
  | .prefetchLoc => false
  | .access => (gpuidxFromGpuid p attr.value).any (· ∈ a.access)
  | .accessInPlace => (gpuidxFromGpuid p attr.value).any (· ∈ a.aip)
  | .noAccess => (gpuidxFromGpuid p attr.value).any fun i => i ∉ a.access ∧ i ∉ a.aip
  | .setFlags => a.flags &&& attr.value.toBitVec == attr.value.toBitVec
  | .clrFlags => a.flags &&& attr.value.toBitVec == 0
  | .granularity => a.granularity == attr.value.toNat
  | .unknown _ => true

def svmRangeIsSameAttrs (p : Process) (a : Attrs) (attrs : List Attribute) : Bool :=
  attrs.all (isSameAttr p a)

/-! ## Ranges -/

/-- `enum svm_work_list_ops`, without the two `_AND_MAP` operations that nothing
requests. -/
inductive WorkOp
  | null
  | unmapRange
  | updateRangeNotifier
  | addRange
  deriving DecidableEq, Repr

/-- `struct svm_range`. `itStart` and `itLast` are those of its interval-tree
node, `notifierStart` and `notifierLast` those of its MMU notifier, in pages;
`kzalloc` clears them. `dmaAddr` has an array of page addresses for each GPU it
was mapped on, where the lowest bit of an address marks a page in VRAM.
`children` and `workOp` are the work for the deferred list. -/
structure Range where
  start : Nat
  last : Nat
  npages : Nat
  itStart : Nat
  itLast : Nat
  notifierStart : Nat
  notifierLast : Nat
  attrs : Attrs
  actualLoc : UInt32
  vramPages : UInt64
  dmaAddr : List (Option (List UInt64))
  svmBo : Option Nat
  ttmRes : Option Nat
  offset : Nat
  mappedToGpu : Bool
  invalid : Nat
  children : List Nat
  workOp : WorkOp
  deriving DecidableEq

def maxGpuInstance : Nat := 64

/-- `svm_range_set_default_attributes`, with the access that `svm_range_new`
gives. -/
def defaultAttrs (p : Process) : Attrs :=
  { flags := flagHostAccess ||| flagCoherent
    preferredLoc := locationUndefined
    prefetchLoc := locationUndefined
    granularity := 9
    access := if p.xnackEnabled then p.bitmapSupported else ∅
    aip := ∅
    disjoint := fun _ _ => Finset.notMem_empty _
    granularity_le := by decide }

def svmRangeNew (p : Process) (start last : Nat) : Range :=
  { start := start
    last := last
    npages := last + 1 - start
    itStart := 0
    itLast := 0
    notifierStart := 0
    notifierLast := 0
    attrs := defaultAttrs p
    actualLoc := 0
    vramPages := 0
    dmaAddr := List.replicate maxGpuInstance none
    svmBo := none
    ttmRes := none
    offset := 0
    mappedToGpu := false
    invalid := 0
    children := []
    workOp := .null }

@[simp] theorem svmRangeNew_start (p : Process) (start last : Nat) :
    (svmRangeNew p start last).start = start := rfl

@[simp] theorem svmRangeNew_last (p : Process) (start last : Nat) :
    (svmRangeNew p start last).last = last := rfl

@[simp] theorem svmRangeNew_attrs (p : Process) (start last : Nat) :
    (svmRangeNew p start last).attrs = defaultAttrs p := rfl

def svmRangeClone (p : Process) (old : Range) : Range :=
  { svmRangeNew p old.start old.last with
    dmaAddr := old.dmaAddr.map (·.map (·.take old.npages))
    ttmRes := if old.svmBo.isSome then old.ttmRes else none
    offset := if old.svmBo.isSome then old.offset else 0
    svmBo := old.svmBo
    actualLoc := old.actualLoc
    mappedToGpu := old.mappedToGpu
    vramPages := old.vramPages
    attrs := old.attrs }

@[simp] theorem svmRangeClone_start (p : Process) (old : Range) :
    (svmRangeClone p old).start = old.start := rfl

@[simp] theorem svmRangeClone_last (p : Process) (old : Range) :
    (svmRangeClone p old).last = old.last := rfl

@[simp] theorem svmRangeClone_attrs (p : Process) (old : Range) :
    (svmRangeClone p old).attrs = old.attrs := rfl

/-! ## Splitting -/

def isVramAddr (addr : UInt64) : Bool :=
  addr &&& 1 ≠ 0

/-- The part of `svm_range_split_array` that the new range gets. -/
def newArray (old new : Range) (arr : List UInt64) : List UInt64 :=
  (arr.drop (new.start - old.start)).take new.npages

/-- The part of `svm_range_split_array` that the old range keeps, of `npages`
pages. -/
def oldArray (old new : Range) (npages : Nat) (arr : List UInt64) : List UInt64 :=
  (arr.drop (if new.start = old.start then new.npages else 0)).take npages

/-- The counter that `svm_range_split_pages` leaves in the new range: each GPU
with an array overwrites it, when the old range has a VRAM location. -/
def newVramPages (old new : Range) : UInt64 :=
  if old.actualLoc = 0 then new.vramPages
  else old.dmaAddr.foldl
    (fun n arr =>
      match arr with
      | none => n
      | some arr => UInt64.ofNat ((newArray old new arr).countP isVramAddr))
    new.vramPages

/-- `svm_range_split_adjust` without its check: the old range shrinks to
`[start, last]`, the new one gets the rest. -/
def splitAdjust (new old : Range) (start last : Nat) : Range × Range :=
  let npages := last + 1 - start
  let vramPages := newVramPages old new
  let splitNodes := old.actualLoc ≠ 0 ∧ old.ttmRes.isSome
  ({ old with
      dmaAddr := old.dmaAddr.map (·.map (oldArray old new npages))
      vramPages := if old.actualLoc = 0 then old.vramPages else old.vramPages - vramPages
      offset := if splitNodes ∧ new.start = old.start then old.offset + new.npages else old.offset
      npages := npages
      start := start
      last := last },
    { new with
      dmaAddr := old.dmaAddr.map (·.map (newArray old new))
      vramPages := vramPages
      offset :=
        if splitNodes then
          if new.start = old.start then old.offset else old.offset + npages
        else new.offset
      svmBo := if splitNodes then old.svmBo else new.svmBo
      ttmRes := if splitNodes then old.ttmRes else new.ttmRes
      attrs := old.attrs
      actualLoc := old.actualLoc
      mappedToGpu := old.mappedToGpu })

section SplitAdjust
variable (new old : Range) (start last : Nat)

@[simp] theorem splitAdjust_old_start : (splitAdjust new old start last).1.start = start := rfl

@[simp] theorem splitAdjust_old_last : (splitAdjust new old start last).1.last = last := rfl

@[simp] theorem splitAdjust_old_attrs : (splitAdjust new old start last).1.attrs = old.attrs := rfl

@[simp] theorem splitAdjust_new_start : (splitAdjust new old start last).2.start = new.start := rfl

@[simp] theorem splitAdjust_new_last : (splitAdjust new old start last).2.last = new.last := rfl

@[simp] theorem splitAdjust_new_attrs : (splitAdjust new old start last).2.attrs = old.attrs := rfl

end SplitAdjust

/-- `svm_range_split`, which returns the shrunk range and the new one. `newOk`
and `dmaOk` tell whether the new range and its arrays can be allocated. -/
def svmRangeSplit (p : Process) (newOk dmaOk : Bool) (prange : Range) (start last : Nat) :
    Except Errno (Range × Range) :=
  if prange.start ≠ start ∧ prange.last ≠ last then .error .einval
  else if start < prange.start ∨ prange.last < last then .error .einval
  else if newOk = false then .error .enomem
  else
    let new :=
      if prange.start = start then svmRangeNew p (last + 1) prange.last
      else svmRangeNew p prange.start (start - 1)
    if new.start < prange.start ∨ prange.last < new.last then .error .einval
    else if dmaOk = false then .error .enomem
    else .ok (splitAdjust new prange start last)

/-! ## Attributes that are the same -/

theorem bitmapSet_of_mem {map : Bitmap} {i : Nat} (h : i ∈ map) : bitmapSet map i 1 = map := by
  ext j
  simp only [mem_bitmapSet]
  constructor
  · rintro (hj | hj)
    · exact hj
    · obtain rfl : j = i := by omega
      exact h
  · exact .inl

theorem bitmapClear_of_notMem {map : Bitmap} {i : Nat} (h : i ∉ map) :
    bitmapClear map i 1 = map := by
  ext j
  simp only [mem_bitmapClear]
  constructor
  · exact fun hj => hj.1
  · intro hj
    refine ⟨hj, fun hji => ?_⟩
    obtain rfl : j = i := by omega
    exact h hj

theorem or_eq_of_and_eq {a b : BitVec 32} (h : a &&& b = b) : a ||| b = a := by
  rw [← h]
  ext i
  simp only [BitVec.getElem_or, BitVec.getElem_and]
  cases a[i] <;> rfl

theorem and_not_eq_of_and_eq_zero {a b : BitVec 32} (h : a &&& b = 0) : a &&& ~~~b = a := by
  ext i hi
  have hbit := congrArg (fun v : BitVec 32 => v.getLsbD i) h
  simp only [BitVec.getLsbD_and, BitVec.ofNat_eq_ofNat, BitVec.getLsbD_zero] at hbit
  simp only [BitVec.getElem_and, BitVec.getElem_not]
  rw [BitVec.getLsbD_eq_getElem hi, BitVec.getLsbD_eq_getElem hi] at hbit
  cases ha : a[i] <;> simp_all

variable {p : Process}

theorem applyAttr_eq_of_isSameAttr {a : Attrs} {attr : Attribute} (h : isSameAttr p a attr = true) :
    applyAttr p a attr = a := by
  unfold isSameAttr at h
  unfold applyAttr
  cases htype : attr.type with
  | preferredLoc =>
    simp only [htype, beq_iff_eq] at h
    simp only [← h]
  | prefetchLoc => simp [htype] at h
  | access =>
    simp only [htype, Option.any_eq_true] at h
    obtain ⟨gpuidx, hgpu, hmem⟩ := h
    have hmem : gpuidx ∈ a.access := by simpa using hmem
    simp only [hgpu, Attrs.setAccess]
    ext1 <;> simp only [bitmapSet_of_mem hmem, bitmapClear_of_notMem (a.disjoint gpuidx hmem)]
  | accessInPlace =>
    simp only [htype, Option.any_eq_true] at h
    obtain ⟨gpuidx, hgpu, hmem⟩ := h
    have hmem : gpuidx ∈ a.aip := by simpa using hmem
    have hno : gpuidx ∉ a.access := fun h => a.disjoint gpuidx h hmem
    simp only [hgpu, Attrs.setAccess]
    ext1 <;> simp only [bitmapSet_of_mem hmem, bitmapClear_of_notMem hno]
  | noAccess =>
    simp only [htype, Option.any_eq_true] at h
    obtain ⟨gpuidx, hgpu, hmem⟩ := h
    obtain ⟨haccess, haip⟩ : gpuidx ∉ a.access ∧ gpuidx ∉ a.aip := by simpa using hmem
    simp only [hgpu, Attrs.setAccess]
    ext1 <;> simp only [bitmapClear_of_notMem haccess, bitmapClear_of_notMem haip]
  | setFlags =>
    simp only [htype, beq_iff_eq] at h
    simp only [or_eq_of_and_eq h]
  | clrFlags =>
    simp only [htype, beq_iff_eq] at h
    simp only [and_not_eq_of_and_eq_zero h]
  | granularity =>
    simp only [htype, beq_iff_eq] at h
    ext1
    all_goals try rfl
    exact (congrArg (min · 0x3f) h).symm.trans (Nat.min_eq_left a.granularity_le)
  | unknown type => rfl

theorem applyAttrs_eq_of_isSameAttrs {a : Attrs} {attrs : List Attribute}
    (h : svmRangeIsSameAttrs p a attrs = true) : applyAttrs p attrs a = a := by
  unfold applyAttrs
  unfold svmRangeIsSameAttrs at h
  induction attrs with
  | nil => rfl
  | cons attr attrs ih =>
    obtain ⟨hattr, hattrs⟩ := Bool.and_eq_true_iff.mp (List.all_cons.symm.trans h)
    rw [List.foldl_cons, applyAttr_eq_of_isSameAttr hattr]
    exact ih hattrs

/-! ## A split that succeeds -/

theorem svmRangeSplit_tail {prange : Range} {last : Nat} (hlo : prange.start ≤ last)
    (hhi : last < prange.last) :
    svmRangeSplit p true true prange prange.start last =
      .ok (splitAdjust (svmRangeNew p (last + 1) prange.last) prange prange.start last) := by
  unfold svmRangeSplit
  rw [if_neg (by simp), if_neg (by omega), if_neg (by simp)]
  dsimp only
  rw [if_pos rfl, if_neg (by simp only [svmRangeNew_start, svmRangeNew_last]; omega),
    if_neg (by simp)]

theorem svmRangeSplit_head {prange : Range} {start : Nat} (hlo : prange.start < start)
    (hhi : start ≤ prange.last) :
    svmRangeSplit p true true prange start prange.last =
      .ok (splitAdjust (svmRangeNew p prange.start (start - 1)) prange start prange.last) := by
  have hne : ¬prange.start = start := by omega
  unfold svmRangeSplit
  rw [if_neg (by simp), if_neg (by omega), if_neg (by simp)]
  dsimp only
  rw [if_neg hne, if_neg (by simp only [svmRangeNew_start, svmRangeNew_last]; omega),
    if_neg (by simp)]

theorem svmRangeSplit_cases (p : Process) (newOk dmaOk : Bool) (prange : Range)
    (start last : Nat) :
    svmRangeSplit p newOk dmaOk prange start last = svmRangeSplit p true true prange start last ∨
      ∃ e, svmRangeSplit p newOk dmaOk prange start last = .error e ∧
        ¬(newOk = true ∧ dmaOk = true) := by
  by_cases hall : newOk = true ∧ dmaOk = true
  · obtain ⟨rfl, rfl⟩ := hall
    exact .inl rfl
  · right
    unfold svmRangeSplit
    dsimp only
    generalize (if prange.start = start then svmRangeNew p (last + 1) prange.last
      else svmRangeNew p prange.start (start - 1)) = new
    repeat' split
    · exact ⟨_, rfl, hall⟩
    · exact ⟨_, rfl, hall⟩
    · exact ⟨_, rfl, hall⟩
    · exact ⟨_, rfl, hall⟩
    · exact ⟨_, rfl, hall⟩
    · simp_all

end Amdkfd.Svm

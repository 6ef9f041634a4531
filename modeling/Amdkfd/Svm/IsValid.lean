import Amdkfd.Svm.CheckVm
import Amdkfd.Svm.Validate

/-!
# The interval of an ioctl

`svm_range_is_valid` of `kfd_svm.c`: an interval is valid when VMAs of the process have all of its
pages, no device VMA has one, and no GPU VM maps one. The loop over the VMAs counts in bytes, in 64
bits, and its end is the sum of two numbers of the user. The pages are counted in numbers that do
not wrap.
-/

namespace Amdkfd.Svm

open Lib List

/-! ## The function -/

/-- `struct vm_area_struct`, with one of `VM_IO`, `VM_PFNMAP` and `VM_MIXEDMAP`. `vm_end` has 64
bits. -/
structure VmArea extends Vma where
  device : Bool
  stop_lt : stop < 2 ^ 52

/-- The VMAs of a process, in the order of their addresses. -/
structure Layout where
  list : List VmArea
  sorted : list.Pairwise fun v w => v.stop ≤ w.start

def Layout.vmaLookup (mm : Layout) (addr : Nat) : Option VmArea :=
  mm.list.find? fun v => v.vmStart ≤ addr ∧ addr < v.vmEnd

/-- The loop of `svm_range_is_valid` from `start` on, with a bound on its rounds. It is `none` when
these do not suffice. -/
def isValidLoop (mm : Layout) (stop : Nat) : Nat → Nat → Option (Option Errno)
  | 0, _ => none
  | rounds + 1, start =>
    match mm.vmaLookup start with
    | none => some (some .efault)
    | some vma =>
      if vma.device then some (some .efault)
      else
        let start := min stop vma.vmEnd
        if start < stop then isValidLoop mm stop rounds start else some none

/-- The error code of a search. -/
def Check.errno : Check → Option Errno
  | .free => none
  | .failed e => some e
  | .addrInUse _ _ => some .eaddrinuse

/-- `svm_range_is_valid`, in pages. A round gets one byte further, at least. -/
def svmRangeIsValid (mm : Layout) (pdds : List (Option GpuVm)) (start size : Nat) :
    Option (Option Errno) :=
  let startUnchg := start
  let start := start * 4096 % 2 ^ 64
  let stop := (start + size * 4096) % 2 ^ 64
  match isValidLoop mm stop (stop - start + 1) start with
  | none => none
  | some (some e) => some (some e)
  | some none =>
    some (svmRangeCheckVm pdds startUnchg ((stop + (2 ^ 64 - 1)) % 2 ^ 64 / 4096)).errno

def kfdIoctlSvmCheck (startAddr size : UInt64) : Option Errno :=
  if startAddr % 4096 ≠ 0 ∨ size % 4096 ≠ 0 then some .einval
  else if startAddr = 0 ∨ size = 0 then some .einval
  else none

/-- The first page of an ioctl, from `svm_ioctl`. -/
def firstPage (startAddr : UInt64) : Nat :=
  startAddr.toNat / 4096

def pagesOf (size : UInt64) : Nat :=
  size.toNat / 4096

/-! ## The loop -/

def Layout.Normal (mm : Layout) (page : Nat) : Prop :=
  ∃ v ∈ mm.list, v.device = false ∧ v.start ≤ page ∧ page < v.stop

section Loop
variable {mm : Layout} {stop start rounds : Nat}

theorem Layout.vmaLookup_some {addr : Nat} {v : VmArea} (h : mm.vmaLookup addr = some v) :
    v ∈ mm.list ∧ v.vmStart ≤ addr ∧ addr < v.vmEnd := by
  have hv := find?_some h
  rw [decide_eq_true_eq] at hv
  exact ⟨mem_of_find?_eq_some h, hv⟩

variable {page : Nat}

theorem Layout.vmaLookup_of_normal (h : mm.Normal page) :
    ∃ v, mm.vmaLookup (page * 4096) = some v ∧ v.device = false := by
  obtain ⟨v, hmem, hdev, hlo, hhi⟩ := h
  cases hfound : mm.vmaLookup (page * 4096) with
  | none =>
    have hno := find?_eq_none.mp hfound v hmem
    rw [decide_eq_true_eq, Vma.vmStart, Vma.vmEnd] at hno
    exact absurd ⟨by omega, by omega⟩ hno
  | some w =>
    obtain ⟨hw, hwlo, hwhi⟩ := Layout.vmaLookup_some hfound
    simp only [Vma.vmStart, Vma.vmEnd] at hwlo hwhi
    obtain ⟨i, hi, rfl⟩ := mem_iff_getElem.mp hmem
    obtain ⟨j, hj, rfl⟩ := mem_iff_getElem.mp hw
    have hsorted := pairwise_iff_getElem.mp mm.sorted
    rcases Nat.lt_trichotomy i j with hlt | rfl | hgt
    · have := hsorted i j hi hj hlt
      omega
    · exact ⟨_, rfl, hdev⟩
    · have := hsorted j i hj hi hgt
      omega

theorem Layout.normal_iff :
    mm.Normal page ↔ ∃ v, mm.vmaLookup (page * 4096) = some v ∧ v.device = false := by
  constructor
  · exact Layout.vmaLookup_of_normal
  · rintro ⟨v, hv, hdev⟩
    obtain ⟨hmem, hlo, hhi⟩ := Layout.vmaLookup_some hv
    simp only [Vma.vmStart, Vma.vmEnd] at hlo hhi
    exact ⟨v, hmem, hdev, by omega, by omega⟩

theorem isValidLoop_ends (h : stop - start < rounds) :
    ∃ r, isValidLoop mm stop rounds start = some r := by
  induction rounds generalizing start with
  | zero => exact absurd h (Nat.not_lt_zero _)
  | succ rounds ih =>
    rw [isValidLoop]
    cases hv : mm.vmaLookup start with
    | none => exact ⟨_, rfl⟩
    | some v =>
      obtain ⟨-, -, hend⟩ := Layout.vmaLookup_some hv
      dsimp only
      split
      · exact ⟨_, rfl⟩
      · split
        · exact ih (by omega)
        · exact ⟨_, rfl⟩

theorem isValidLoop_first (h : isValidLoop mm stop rounds (page * 4096) = some none) :
    mm.Normal page := by
  cases rounds with
  | zero => cases h
  | succ rounds =>
    rw [isValidLoop] at h
    rw [Layout.normal_iff]
    cases hv : mm.vmaLookup (page * 4096) with
    | none => rw [hv] at h; cases h
    | some v =>
      rw [hv] at h
      dsimp only at h
      split at h
      · cases h
      · next hdev => exact ⟨v, rfl, by simpa using hdev⟩

theorem isValidLoop_ok {page first last : Nat}
    (h : isValidLoop mm (last * 4096) rounds (first * 4096) = some none)
    (hlo : first ≤ page) (hhi : page < last) : mm.Normal page := by
  induction rounds generalizing first with
  | zero => cases h
  | succ rounds ih =>
    obtain ⟨v, hv, hdev⟩ := Layout.normal_iff.mp (isValidLoop_first h)
    obtain ⟨hmem, hstart, hend⟩ := Layout.vmaLookup_some hv
    rw [isValidLoop, hv] at h
    simp only [hdev, Bool.false_eq_true, if_false] at h
    simp only [Vma.vmStart, Vma.vmEnd] at hstart hend
    by_cases hin : page < v.stop
    · exact ⟨v, hmem, hdev, by omega, hin⟩
    · -- the VMA ends before the page, and so the loop goes on at its end
      have hmin : min (last * 4096) v.vmEnd = v.stop * 4096 := by
        unfold Vma.vmEnd
        omega
      rw [if_pos (by omega), hmin] at h
      exact ih h (by omega)

theorem isValidLoop_wrapped (hwrap : stop ≤ page * 4096) (h : mm.Normal page) :
    isValidLoop mm stop (rounds + 1) (page * 4096) = some none := by
  obtain ⟨v, hv, hdev⟩ := Layout.normal_iff.mp h
  obtain ⟨-, -, hend⟩ := Layout.vmaLookup_some hv
  rw [isValidLoop, hv]
  simp only [hdev, Bool.false_eq_true, if_false]
  rw [if_neg (by omega)]

end Loop

/-! ## GPU VMs -/

def Unmapped (pdds : List (Option GpuVm)) (page : Nat) : Prop :=
  ∀ vm, some vm ∈ pdds → ∀ mapping ∈ vm.va, ¬mapping.Has page

/-- A GPU VM that cannot be reserved or has a mapping that begins at `last` or before and ends at
`start` or after. -/
def InTheWay (pdds : List (Option GpuVm)) (start last : Nat) : Prop :=
  ∃ vm, some vm ∈ pdds ∧
    (vm.reserve ≠ none ∨ ∃ mapping ∈ vm.va, mapping.start ≤ last ∧ start ≤ mapping.last)

section GpuVms
variable {pdds : List (Option GpuVm)} {start last : Nat}

theorem overlap_eq_none_iff {mapping : BoVaMapping} :
    mapping.overlap start last = none ↔ ¬(mapping.start ≤ last ∧ start ≤ mapping.last) := by
  unfold BoVaMapping.overlap
  split
  · next h => exact iff_of_false nofun (not_not.mpr h)
  · next h => exact iff_of_true rfl h

theorem svmRangeCheckVm_free_iff :
    (svmRangeCheckVm pdds start last).errno = none ↔ ¬InTheWay pdds start last := by
  unfold svmRangeCheckVm
  induction pdds with
  | nil =>
    refine iff_of_true rfl fun h => ?_
    obtain ⟨_, hmem, -⟩ := h
    cases hmem
  | cons pdd pdds ih =>
    cases pdd with
    | none =>
      rw [checkVms, ih]
      simp only [InTheWay, mem_cons, reduceCtorEq, false_or]
    | some vm =>
      have hsplit : InTheWay (some vm :: pdds) start last ↔
          (vm.reserve ≠ none ∨ ∃ mapping ∈ vm.va, mapping.start ≤ last ∧ start ≤ mapping.last) ∨
          InTheWay pdds start last := by
        simp only [InTheWay, mem_cons, Option.some.injEq, or_and_right, exists_or,
          exists_eq_left]
      rw [hsplit, checkVms]
      cases hreserve : vm.reserve with
      | some e =>
        refine iff_of_false (Option.some_ne_none e) (not_not_intro ?_)
        exact .inl (.inl (Option.some_ne_none e))
      | none =>
        dsimp only
        cases hfound : vm.va.findSome? (BoVaMapping.overlap start last) with
        | some bo =>
          obtain ⟨mapping, hmem, hhit⟩ := exists_of_findSome?_eq_some hfound
          have hover : mapping.start ≤ last ∧ start ≤ mapping.last := by
            by_contra hno
            rw [overlap_eq_none_iff.mpr hno] at hhit
            cases hhit
          refine iff_of_false (Option.some_ne_none _) (not_not_intro ?_)
          exact .inl (.inr ⟨mapping, hmem, hover⟩)
        | none =>
          have hnone := findSome?_eq_none_iff.mp hfound
          dsimp only
          rw [ih]
          refine not_congr ⟨.inr, fun h => h.resolve_left ?_⟩
          rintro (h | ⟨mapping, hmem, hover⟩)
          · exact h rfl
          · exact overlap_eq_none_iff.mp (hnone mapping hmem) hover

theorem unmapped_of_not_inTheWay (h : ¬InTheWay pdds start last) {page : Nat} (hlo : start ≤ page)
    (hhi : page ≤ last) : Unmapped pdds page :=
  fun vm hvm mapping hmem hhas =>
    h ⟨vm, hvm, .inr ⟨mapping, hmem, hhas.1.trans hhi, hlo.trans hhas.2⟩⟩

end GpuVms

/-! ## The interval -/

/-- When the interval is accepted, VMAs that are not device VMAs have its pages and no GPU VM maps
one of them. -/
def AcceptedValid (mm : Layout) (pdds : List (Option GpuVm)) (startAddr size : UInt64) : Prop :=
  svmRangeIsValid mm pdds (firstPage startAddr) (pagesOf size) = some none →
    ∀ page, firstPage startAddr ≤ page → page < firstPage startAddr + pagesOf size →
      mm.Normal page ∧ Unmapped pdds page

section Interval
variable {mm : Layout} {pdds : List (Option GpuVm)} {startAddr size : UInt64}

theorem kfdIoctlSvmCheck_none (h : kfdIoctlSvmCheck startAddr size = none) :
    firstPage startAddr * 4096 = startAddr.toNat ∧ pagesOf size * 4096 = size.toNat ∧
      0 < startAddr.toNat ∧ 0 < size.toNat := by
  unfold kfdIoctlSvmCheck at h
  split at h
  · cases h
  · next halign =>
    split at h
    · cases h
    · next hzero =>
      simp only [← UInt64.toNat_inj, UInt64.toNat_mod, UInt64.toNat_ofNat, Nat.reducePow,
        Nat.reduceMod, not_or, ne_eq, not_not] at halign hzero
      unfold firstPage pagesOf
      omega

theorem svmRangeIsValid_ends (start size : Nat) :
    ∃ r, svmRangeIsValid mm pdds start size = some r := by
  obtain ⟨r, hr⟩ : ∃ r, isValidLoop mm ((start * 4096 % 2 ^ 64 + size * 4096) % 2 ^ 64)
      ((start * 4096 % 2 ^ 64 + size * 4096) % 2 ^ 64 - start * 4096 % 2 ^ 64 + 1)
      (start * 4096 % 2 ^ 64) = some r := isValidLoop_ends (Nat.lt_succ_self _)
  unfold svmRangeIsValid
  dsimp only
  rw [hr]
  cases r with
  | none | some e => exact ⟨_, rfl⟩

def wrappedEnd (startAddr size : UInt64) : Nat :=
  (startAddr.toNat + size.toNat) % 2 ^ 64

def wrappedLast (startAddr size : UInt64) : Nat :=
  (wrappedEnd startAddr size + (2 ^ 64 - 1)) % 2 ^ 64 / 4096

theorem svmRangeIsValid_ok_iff (h : kfdIoctlSvmCheck startAddr size = none) :
    svmRangeIsValid mm pdds (firstPage startAddr) (pagesOf size) = some none ↔
      isValidLoop mm (wrappedEnd startAddr size) (wrappedEnd startAddr size - startAddr.toNat + 1)
        (firstPage startAddr * 4096) = some none ∧
      ¬InTheWay pdds (firstPage startAddr) (wrappedLast startAddr size) := by
  obtain ⟨hstart, hsize, -, -⟩ := kfdIoctlSvmCheck_none h
  have hlt := startAddr.toNat_lt
  have hmod : firstPage startAddr * 4096 % 2 ^ 64 = firstPage startAddr * 4096 := by omega
  rw [← svmRangeCheckVm_free_iff]
  unfold svmRangeIsValid
  dsimp only
  rw [hmod, hsize, hstart]
  change (match isValidLoop mm (wrappedEnd startAddr size)
    (wrappedEnd startAddr size - startAddr.toNat + 1) startAddr.toNat with
    | none => none | some (some e) => some (some e)
    | some none => some (svmRangeCheckVm pdds (firstPage startAddr)
      (wrappedLast startAddr size)).errno) = some none ↔ _
  cases isValidLoop mm (wrappedEnd startAddr size)
      (wrappedEnd startAddr size - startAddr.toNat + 1) startAddr.toNat with
  | none => simp
  | some r => cases r <;> simp

/-- The loop over the VMAs ends. An interval that is accepted is valid exactly when its end does
not wrap, or when the VMA of its first page is missing or a device VMA, or when a GPU VM is in the
way of the pages from the first one to the one before the wrapped end. -/
theorem isValid_sound_iff (mm : Layout) (pdds : List (Option GpuVm)) (startAddr size : UInt64)
    (h : kfdIoctlSvmCheck startAddr size = none) :
    (∃ r, svmRangeIsValid mm pdds (firstPage startAddr) (pagesOf size) = some r) ∧
      (AcceptedValid mm pdds startAddr size ↔
        startAddr.toNat + size.toNat < 2 ^ 64 ∨ ¬mm.Normal (firstPage startAddr) ∨
          InTheWay pdds (firstPage startAddr) (wrappedLast startAddr size)) := by
  obtain ⟨hstart, hsize, hstart0, hsize0⟩ := kfdIoctlSvmCheck_none h
  have hstartLt := startAddr.toNat_lt
  have hsizeLt := size.toNat_lt
  refine ⟨svmRangeIsValid_ends _ _, ?_⟩
  unfold AcceptedValid
  rw [svmRangeIsValid_ok_iff h]
  by_cases hwrap : startAddr.toNat + size.toNat < 2 ^ 64
  · refine iff_of_true (fun ⟨hloop, hfree⟩ page hlo hhi => ?_) (.inl hwrap)
    have hend : wrappedEnd startAddr size = (firstPage startAddr + pagesOf size) * 4096 := by
      unfold wrappedEnd
      omega
    have hlast : wrappedLast startAddr size + 1 = firstPage startAddr + pagesOf size := by
      unfold wrappedLast
      omega
    rw [hend] at hloop
    exact ⟨isValidLoop_ok hloop hlo hhi, unmapped_of_not_inTheWay hfree hlo (by omega)⟩
  · rw [or_iff_right hwrap]
    constructor
    · -- the last page of the interval is past the end of every VMA
      intro hvalid
      by_contra hbad
      rw [not_or, not_not] at hbad
      have hle : wrappedEnd startAddr size ≤ firstPage startAddr * 4096 := by
        unfold wrappedEnd
        omega
      obtain ⟨v, -, -, -, hlt⟩ := (hvalid ⟨isValidLoop_wrapped hle hbad.1, hbad.2⟩
        (firstPage startAddr + pagesOf size - 1) (by omega) (by omega)).1
      have hstop := v.stop_lt
      omega
    · rintro (hnormal | hway) ⟨hloop, hfree⟩
      · exact absurd (isValidLoop_first hloop) hnormal
      · exact absurd hway hfree

end Interval

/-! ## An interval that wraps -/

def exOneVma : Layout :=
  { list := [{ start := 1, stop := 2, read := true, write := true, device := false,
               stop_lt := by decide }]
    sorted := .cons (fun _ h => absurd h not_mem_nil) .nil }

/-- Page 1 is accepted, and valid. -/
theorem isValid_sound_exOneVma :
    (∃ r, svmRangeIsValid exOneVma [] (firstPage 0x1000) (pagesOf 0x1000) = some r) ∧
      (AcceptedValid exOneVma [] 0x1000 0x1000 ↔
        (0x1000 : UInt64).toNat + (0x1000 : UInt64).toNat < 2 ^ 64 ∨
          ¬exOneVma.Normal (firstPage 0x1000) ∨
          InTheWay [] (firstPage 0x1000) (wrappedLast 0x1000 0x1000)) :=
  isValid_sound_iff exOneVma [] 0x1000 0x1000 (by decide)

/-- All pages but one, from page 1 on, are accepted too. -/
theorem isValid_broken :
    kfdIoctlSvmCheck 0x1000 0xfffffffffffff000 = none ∧
      ¬AcceptedValid exOneVma [] 0x1000 0xfffffffffffff000 := by
  refine ⟨by decide, fun h => ?_⟩
  obtain ⟨v, hmem, -, -, hlt⟩ := (h (by decide +kernel) 2 (by decide) (by decide)).1
  obtain rfl := mem_singleton.mp hmem
  exact absurd hlt (by decide)

end Amdkfd.Svm

import Amdkfd.Svm.Accounting

/-!
# The buffers in the way of an unregistered range

`svm_range_create_unregistered_range` looks for buffers in the GPU VMs of the process, first by
their GPU addresses and then by the CPU addresses of userptr buffers. Each search stops at the
first buffer that it finds, and at the first VM that it cannot reserve. When something is found
that does not have the page of the fault, the range has this page only, and nothing is looked
for again.
-/

namespace Amdkfd.Svm

open Lib List

/-- `gtt->userptr` and `num_pages` of a userptr buffer. The address is in bytes. -/
structure Userptr where
  addr : Nat
  numPages : Nat
  addr_ne : addr ≠ 0
  numPages_pos : 0 < numPages

/-- A mapping of a buffer in `vm->va`, in pages, with the CPU address if it is a userptr
buffer. -/
structure BoVaMapping where
  start : Nat
  last : Nat
  userptr : Option Userptr

/-- The VM of a GPU: the nodes of `vm->va` in their order, and the results of
`amdgpu_bo_reserve` in the two searches. -/
structure GpuVm where
  va : List BoVaMapping
  reserve : Option Errno
  reserveUserptr : Option Errno

/-- The result of a search. -/
inductive Check
  | free
  | failed (e : Errno)
  | addrInUse (boStart boLast : Nat)

/-- The loop over `p->pdds` of both searches. There is no VM without `drm_priv`. -/
def checkVms (reserve : GpuVm → Option Errno) (hit : BoVaMapping → Option (Nat × Nat)) :
    List (Option GpuVm) → Check
  | [] => .free
  | none :: pdds => checkVms reserve hit pdds
  | some vm :: pdds =>
    match reserve vm with
    | some e => .failed e
    | none =>
      match vm.va.findSome? hit with
      | some (boStart, boLast) => .addrInUse boStart boLast
      | none => checkVms reserve hit pdds

def BoVaMapping.overlap (start last : Nat) (mapping : BoVaMapping) : Option (Nat × Nat) :=
  if mapping.start ≤ last ∧ start ≤ mapping.last then some (mapping.start, mapping.last) else none

def svmRangeCheckVm (pdds : List (Option GpuVm)) (start last : Nat) : Check :=
  checkVms GpuVm.reserve (BoVaMapping.overlap start last) pdds

def amdgpuTtmTtAffectUserptr (ttm : Option Userptr) (start «end» : Nat) : Option Userptr :=
  match ttm with
  | none => none
  | some u => if «end» < u.addr ∨ u.addr + u.numPages * 4096 ≤ start then none else some u

def BoVaMapping.affected (start last : Nat) (mapping : BoVaMapping) : Option (Nat × Nat) :=
  (amdgpuTtmTtAffectUserptr mapping.userptr (start * 4096) (last * 4096)).map fun u =>
    (u.addr / 4096, u.addr / 4096 + u.numPages - 1)

def svmRangeCheckVmUserptr (pdds : List (Option GpuVm)) (start last : Nat) : Check :=
  checkVms GpuVm.reserveUserptr (BoVaMapping.affected start last) pdds

/-- The two searches of `svm_range_create_unregistered_range`. -/
def svmRangeCheck (pdds : List (Option GpuVm)) (start last : Nat) : Option (Nat × Nat) :=
  match svmRangeCheckVm pdds start last with
  | .addrInUse boStart boLast => some (boStart, boLast)
  | _ =>
    match svmRangeCheckVmUserptr pdds start last with
    | .addrInUse boStart boLast => some (boStart, boLast)
    | _ => none

/-- The fault with what the searches find. -/
def Fault.checked (s : Svms) (pdds : List (Option GpuVm)) (f : Fault) : Fault :=
  match svmRangeGetRangeBoundaries s f with
  | .error _ => f
  | .ok (start, last) => { f with bo := svmRangeCheck pdds start last }

/-! ## What a search finds -/

def searched (reserve : GpuVm → Option Errno) (pdds : List (Option GpuVm)) : List GpuVm :=
  (pdds.filterMap id).takeWhile fun vm => (reserve vm).isNone

def unsearched (reserve : GpuVm → Option Errno) (pdds : List (Option GpuVm)) : List GpuVm :=
  (pdds.filterMap id).dropWhile fun vm => (reserve vm).isNone

def mappings (vms : List GpuVm) : List BoVaMapping :=
  vms.flatMap GpuVm.va

def Check.found : Check → Option (Nat × Nat)
  | .addrInUse boStart boLast => some (boStart, boLast)
  | _ => none

section Search
variable {reserve : GpuVm → Option Errno} {hit : BoVaMapping → Option (Nat × Nat)}
  {pdds : List (Option GpuVm)} {start last : Nat}

theorem checkVms_eq (pdds : List (Option GpuVm)) :
    (checkVms reserve hit pdds).found = (mappings (searched reserve pdds)).findSome? hit := by
  induction pdds with
  | nil => rfl
  | cons pdd pdds ih =>
    cases pdd with
    | none => exact ih
    | some vm =>
      rw [checkVms]
      cases hreserve : reserve vm with
      | some e =>
        have hnone : searched reserve (some vm :: pdds) = [] := by simp [searched, hreserve]
        rw [hnone]
        rfl
      | none =>
        have hcons : searched reserve (some vm :: pdds) = vm :: searched reserve pdds := by
          simp [searched, hreserve]
        rw [hcons, mappings, flatMap_cons, findSome?_append]
        cases hfound : vm.va.findSome? hit with
        | some bo => rfl
        | none => exact ih

theorem svmRangeCheck_eq :
    svmRangeCheck pdds start last =
      ((mappings (searched GpuVm.reserve pdds)).findSome? (BoVaMapping.overlap start last)).or
        ((mappings (searched GpuVm.reserveUserptr pdds)).findSome?
          (BoVaMapping.affected start last)) := by
  rw [← checkVms_eq, ← checkVms_eq]
  unfold svmRangeCheck
  change _ =
    (svmRangeCheckVm pdds start last).found.or (svmRangeCheckVmUserptr pdds start last).found
  cases svmRangeCheckVm pdds start last with
  | addrInUse boStart boLast => rfl
  | _ =>
    cases svmRangeCheckVmUserptr pdds start last with
    | addrInUse boStart boLast => rfl
    | _ => rfl

end Search

/-! ## Pages of buffers -/

def BoVaMapping.Has (mapping : BoVaMapping) (page : Nat) : Prop :=
  mapping.start ≤ page ∧ page ≤ mapping.last

def Userptr.Has (u : Userptr) (page : Nat) : Prop :=
  u.addr < (page + 1) * 4096 ∧ page * 4096 < u.addr + u.numPages * 4096

/-- Neither does the mapping map the page, nor is the page one of its userptr buffer. -/
def BoVaMapping.Unused (mapping : BoVaMapping) (page : Nat) : Prop :=
  ¬mapping.Has page ∧ ∀ u ∈ mapping.userptr, ¬u.Has page

def Unused (pdds : List (Option GpuVm)) (page : Nat) : Prop :=
  ∀ vm, some vm ∈ pdds → ∀ mapping ∈ vm.va, mapping.Unused page

/-- What a search that finds nothing can miss: a mapping or a userptr buffer in a VM that was
not searched, and a userptr buffer that begins inside the last page. -/
structure NothingMissed (pdds : List (Option GpuVm)) (start last : Nat) : Prop where
  mapping : ∀ mapping ∈ mappings (unsearched GpuVm.reserve pdds), ∀ page, start ≤ page →
    page ≤ last → ¬mapping.Has page
  userptr : ∀ mapping ∈ mappings (unsearched GpuVm.reserveUserptr pdds), ∀ u ∈ mapping.userptr,
    ∀ page, start ≤ page → page ≤ last → ¬u.Has page
  lastPage : start ≤ last → ∀ mapping ∈ mappings (searched GpuVm.reserveUserptr pdds),
    ∀ u ∈ mapping.userptr, ¬(last * 4096 < u.addr ∧ u.addr < (last + 1) * 4096)

section Pages
variable {reserve : GpuVm → Option Errno} {pdds : List (Option GpuVm)} {start last page : Nat}
  {mapping : BoVaMapping}

theorem mem_mappings_iff (reserve : GpuVm → Option Errno) :
    (∃ vm, some vm ∈ pdds ∧ mapping ∈ vm.va) ↔
      mapping ∈ mappings (searched reserve pdds) ∨
        mapping ∈ mappings (unsearched reserve pdds) := by
  have hall : (∃ vm, some vm ∈ pdds ∧ mapping ∈ vm.va) ↔
      mapping ∈ mappings (pdds.filterMap id) := by
    simp [mappings, mem_flatMap]
  rw [hall, ← mem_append, searched, unsearched, mappings, mappings, mappings,
    ← flatMap_append, takeWhile_append_dropWhile]

theorem unused_iff :
    Unused pdds page ↔ ∀ mapping, (∃ vm, some vm ∈ pdds ∧ mapping ∈ vm.va) → mapping.Unused page :=
  ⟨fun h mapping ⟨vm, hvm, hmem⟩ => h vm hvm mapping hmem,
    fun h vm hvm mapping hmem => h mapping ⟨vm, hvm, hmem⟩⟩

theorem overlap_none (h : mapping.overlap start last = none) (hlo : start ≤ page)
    (hhi : page ≤ last) : ¬mapping.Has page := by
  unfold BoVaMapping.overlap at h
  rintro ⟨hstart, hlast⟩
  rw [if_pos ⟨hstart.trans hhi, hlo.trans hlast⟩] at h
  cases h

theorem affected_none (h : mapping.affected start last = none) {u : Userptr}
    (hu : u ∈ mapping.userptr) (hlo : start ≤ page) (hhi : page ≤ last) (hhas : u.Has page) :
    last * 4096 < u.addr ∧ u.addr < (last + 1) * 4096 := by
  unfold BoVaMapping.affected amdgpuTtmTtAffectUserptr at h
  rw [hu] at h
  obtain ⟨hfirst, hlast⟩ := hhas
  have hout : last * 4096 < u.addr ∨ u.addr + u.numPages * 4096 ≤ start * 4096 := by
    by_contra hin
    simp [hin] at h
  omega

theorem unused_iff_nothingMissed (h : svmRangeCheck pdds start last = none) :
    (∀ page, start ≤ page → page ≤ last → Unused pdds page) ↔ NothingMissed pdds start last := by
  rw [svmRangeCheck_eq, Option.or_eq_none_iff, findSome?_eq_none_iff,
    findSome?_eq_none_iff] at h
  obtain ⟨hoverlap, haffected⟩ := h
  simp only [unused_iff]
  constructor
  · intro hunused
    refine ⟨fun mapping hm page hlo hhi => ?_, fun mapping hm u hu page hlo hhi => ?_,
      fun hle mapping hm u hu hin => ?_⟩
    · exact (hunused page hlo hhi mapping ((mem_mappings_iff _).mpr (.inr hm))).1
    · exact (hunused page hlo hhi mapping ((mem_mappings_iff _).mpr (.inr hm))).2 u hu
    · refine (hunused last hle (Nat.le_refl _) mapping ((mem_mappings_iff _).mpr (.inl hm))).2 u hu
        ⟨hin.2, ?_⟩
      have hpos := u.numPages_pos
      omega
  · intro hmissed page hlo hhi mapping hm
    refine ⟨?_, fun u hu hhas => ?_⟩
    · rcases (mem_mappings_iff GpuVm.reserve).mp hm with hm | hm
      · exact overlap_none (hoverlap mapping hm) hlo hhi
      · exact hmissed.mapping mapping hm page hlo hhi
    · rcases (mem_mappings_iff GpuVm.reserveUserptr).mp hm with hm | hm
      · exact hmissed.lastPage (hlo.trans hhi) mapping hm u hu
          (affected_none (haffected mapping hm) hu hlo hhi hhas)
      · exact hmissed.userptr mapping hm u hu page hlo hhi hhas

end Pages

/-! ## The new range -/

def UnregisteredApart (st : Account) (pdds : List (Option GpuVm)) (f : Fault) : Prop :=
  let r := svmRangeCreateUnregisteredRange st (f.checked st.mm.svms pdds)
  r.2 = none → ∀ page, (r.1.mm.svms.heap st.mm.svms.next).Has page → Unused pdds page

/-- The first mapping in the way of the pages, by its GPU address, or else by the CPU address of
its userptr buffer. -/
def firstInTheWay (pdds : List (Option GpuVm)) (start last : Nat) : Option (Nat × Nat) :=
  ((mappings (searched GpuVm.reserve pdds)).findSome? (BoVaMapping.overlap start last)).or
    ((mappings (searched GpuVm.reserveUserptr pdds)).findSome? (BoVaMapping.affected start last))

/-- The first mapping in the way has the page, or no mapping has; when none is in the way, then
nothing was missed. -/
def FirstSuffices (pdds : List (Option GpuVm)) (addr start last : Nat) : Prop :=
  match firstInTheWay pdds start last with
  | none => NothingMissed pdds start last
  | some (boStart, boLast) => (boStart ≤ addr ∧ addr ≤ boLast) ∨ Unused pdds addr

section New
variable {st : Account} {pdds : List (Option GpuVm)} {f : Fault} {start last : Nat}

theorem createUnregisteredRange_has (hnew : f.newOk = true) (hgpu : f.gpuOk = true)
    (hpages : unregisteredPages st.mm.svms f = some (start, last)) :
    (svmRangeCreateUnregisteredRange st f).2 = none ∧
      ∀ page, ((svmRangeCreateUnregisteredRange st f).1.mm.svms.heap st.mm.svms.next).Has page ↔
        start ≤ page ∧ page ≤ last := by
  unfold svmRangeCreateUnregisteredRange
  rw [hpages]
  dsimp only
  rw [hnew, if_neg (by simp), hgpu, if_neg (by simp)]
  refine ⟨rfl, fun page => ?_⟩
  have hself := st.mm.svms.insertNew_self (unregisteredRange st.proc f start last)
  unfold Svms.insertNew at hself
  obtain ⟨hstart, hlast, -, -⟩ := unregisteredRange_spec st.proc f start last
  rw [hself]
  change (unregisteredRange st.proc f start last).Has page ↔ _
  unfold Range.Has
  rw [hstart, hlast]

theorem createUnregisteredRange_error
    (h : unregisteredPages st.mm.svms f = none ∨ f.newOk = false ∨ f.gpuOk = false) :
    (svmRangeCreateUnregisteredRange st f).2 ≠ none := by
  unfold svmRangeCreateUnregisteredRange
  cases hpages : unregisteredPages st.mm.svms f with
  | none => exact nofun
  | some pages =>
    dsimp only
    split
    · exact nofun
    · next hnew =>
      rw [hpages] at h
      rw [if_pos ((h.resolve_left nofun).resolve_left hnew)]
      exact nofun

theorem unregisteredPages_checked (pdds : List (Option GpuVm))
    (hok : svmRangeGetRangeBoundaries st.mm.svms f = .ok (start, last)) :
    unregisteredPages st.mm.svms (f.checked st.mm.svms pdds) =
      match firstInTheWay pdds start last with
      | none => some (start, last)
      | some (boStart, boLast) =>
        if boStart ≤ f.addr ∧ f.addr ≤ boLast then none else some (f.addr, f.addr) := by
  have hchecked : f.checked st.mm.svms pdds = { f with bo := firstInTheWay pdds start last } := by
    unfold Fault.checked
    rw [hok, firstInTheWay, ← svmRangeCheck_eq]
  have hok' : svmRangeGetRangeBoundaries st.mm.svms { f with bo := firstInTheWay pdds start last } =
      .ok (start, last) := hok
  rw [hchecked]
  generalize firstInTheWay pdds start last = bo at hok' ⊢
  unfold unregisteredPages
  cases bo with
  | none | some bo => simp [hok']

/-- The new range has no page of a buffer exactly when the function fails for another reason, or
when the first mapping in the way has the page of the fault, or no mapping has, or when none is
in the way and none was missed. -/
theorem unregistered_apart_iff (st : Account) (pdds : List (Option GpuVm)) (f : Fault) :
    UnregisteredApart st pdds f ↔
      f.newOk = false ∨ f.gpuOk = false ∨
        ∀ start last, svmRangeGetRangeBoundaries st.mm.svms f = .ok (start, last) →
          FirstSuffices pdds f.addr start last := by
  have hnewOk : (f.checked st.mm.svms pdds).newOk = f.newOk := by
    unfold Fault.checked
    split
    · rfl
    · rfl
  have hgpuOk : (f.checked st.mm.svms pdds).gpuOk = f.gpuOk := by
    unfold Fault.checked
    split
    · rfl
    · rfl
  unfold UnregisteredApart
  dsimp only
  by_cases hnew : f.newOk = false
  · exact iff_of_true (fun h => absurd h (createUnregisteredRange_error
      (.inr (.inl (hnewOk.trans hnew))))) (.inl hnew)
  by_cases hgpu : f.gpuOk = false
  · exact iff_of_true (fun h => absurd h (createUnregisteredRange_error
      (.inr (.inr (hgpuOk.trans hgpu))))) (.inr (.inl hgpu))
  have hnewTrue := hnewOk.trans (Bool.not_eq_false _ ▸ hnew)
  have hgpuTrue := hgpuOk.trans (Bool.not_eq_false _ ▸ hgpu)
  have hdrop : (f.newOk = false ∨ f.gpuOk = false ∨
        ∀ start last, svmRangeGetRangeBoundaries st.mm.svms f = .ok (start, last) →
          FirstSuffices pdds f.addr start last) ↔
      ∀ start last, svmRangeGetRangeBoundaries st.mm.svms f = .ok (start, last) →
        FirstSuffices pdds f.addr start last :=
    ⟨fun h => (h.resolve_left hnew).resolve_left hgpu, fun h => .inr (.inr h)⟩
  rw [hdrop]
  cases hok : svmRangeGetRangeBoundaries st.mm.svms f with
  | error e =>
    have hnone : unregisteredPages st.mm.svms (f.checked st.mm.svms pdds) = none := by
      have hsame : f.checked st.mm.svms pdds = f := by
        unfold Fault.checked
        rw [hok]
      rw [hsame, unregisteredPages, hok]
    exact iff_of_true (fun h => absurd h (createUnregisteredRange_error (.inl hnone))) nofun
  | ok pages =>
    obtain ⟨start, last⟩ := pages
    have hpages := unregisteredPages_checked pdds hok
    have hone : (∀ start' last', Except.ok (start, last) = (.ok (start', last') :
          Except Errno (Nat × Nat)) → FirstSuffices pdds f.addr start' last') ↔
        FirstSuffices pdds f.addr start last := by
      refine ⟨fun h => h start last rfl, fun h start' last' heq => ?_⟩
      cases heq
      exact h
    rw [hone]
    unfold FirstSuffices
    cases hway : firstInTheWay pdds start last with
    | none =>
      -- the range keeps its boundaries, and a mapping in it was missed by the check
      rw [hway] at hpages
      obtain ⟨herr, hhas⟩ := createUnregisteredRange_has hnewTrue hgpuTrue hpages
      rw [firstInTheWay, ← svmRangeCheck_eq] at hway
      refine Iff.trans ?_ (unused_iff_nothingMissed hway)
      exact ⟨fun h page hlo hhi => h herr page ((hhas page).mpr ⟨hlo, hhi⟩),
        fun h _ page hpage => h page ((hhas page).mp hpage).1 ((hhas page).mp hpage).2⟩
    | some bo =>
      obtain ⟨boStart, boLast⟩ := bo
      rw [hway] at hpages
      dsimp only at hpages ⊢
      by_cases hin : boStart ≤ f.addr ∧ f.addr ≤ boLast
      · rw [if_pos hin] at hpages
        exact iff_of_true (fun h => absurd h (createUnregisteredRange_error (.inl hpages)))
          (.inl hin)
      · -- the range shrinks to the page of the fault, which is not checked again
        rw [if_neg hin] at hpages
        obtain ⟨herr, hhas⟩ := createUnregisteredRange_has hnewTrue hgpuTrue hpages
        refine Iff.trans ?_ ⟨.inr, fun h => h.resolve_left hin⟩
        refine ⟨fun h => h herr f.addr ((hhas _).mpr ⟨Nat.le_refl _, Nat.le_refl _⟩),
          fun h _ page hpage => ?_⟩
        obtain ⟨hlo, hhi⟩ := (hhas page).mp hpage
        rwa [Nat.le_antisymm hhi hlo]

end New

/-! ## Two buffers -/

/-- The VM of the first GPU has the pages 512 to 515 and 520 to 527, that of the second one has
none. -/
def exTwoBuffers : List (Option GpuVm) :=
  [some { va := [⟨512, 515, none⟩, ⟨520, 527, none⟩], reserve := none, reserveUserptr := none },
    some { va := [], reserve := none, reserveUserptr := none }]

/-- The second GPU faults at page 520. The search finds the pages 512 to 515, and the new range
is page 520. -/
theorem unregistered_broken : ¬UnregisteredApart (exAccount true) exTwoBuffers exFaultBetween := by
  intro h
  have hunused := h (by decide +kernel) 520 (by decide +kernel)
  exact (hunused _ mem_cons_self ⟨520, 527, none⟩ (by simp)).1 ⟨by decide, by decide⟩

def exUserptr : Userptr := ⟨1023 * 4096 + 8, 1, by decide, by decide⟩

/-- A userptr buffer that begins inside the last page is missed. -/
example : ¬UnregisteredApart (exAccount true)
    [some { va := [⟨0, 0, some exUserptr⟩], reserve := none, reserveUserptr := none }]
    exFaultBetween := by
  intro h
  have hunused := h (by decide +kernel) 1023 (by decide +kernel)
  exact (hunused _ mem_cons_self ⟨0, 0, some exUserptr⟩ (by simp)).2 exUserptr rfl
    ⟨by decide, by decide⟩

end Amdkfd.Svm

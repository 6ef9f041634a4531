import Amdkfd.Lib.Gap
import Amdkfd.Svm.Reservation

/-!
# The boundaries of a range that a page fault makes
-/

namespace Amdkfd.Svm

open Lib List Option

/-- The ranges in the tree are in order, and no two have a page in common. -/
def Svms.Registered (s : Svms) : Prop :=
  InOrder (fun id => (s.heap id).itStart) (fun id => (s.heap id).itLast) s.tree

def Svms.Unregistered (s : Svms) (page : Nat) : Prop :=
  Outside (fun id => (s.heap id).itStart) (fun id => (s.heap id).itLast) s.tree page

/-- A page that a new range around `addr` may have. -/
structure Svms.Available (s : Svms) (vmStart vmEnd addr page : Nat) : Prop where
  vma : vmStart ≤ page ∧ page < vmEnd
  block : page / 512 = addr / 512
  unregistered : s.Unregistered page

theorem alignDown_le (x a : Nat) : alignDown x a ≤ x :=
  Nat.div_mul_le_self x a

theorem le_alignUp {x a : Nat} (ha : 0 < a) : x ≤ alignUp x a := by
  have hdiv := Nat.div_add_mod (x + a - 1) a
  have hmod := Nat.mod_lt (x + a - 1) ha
  unfold alignUp
  rw [mul_comm] at hdiv
  omega

theorem mem_block_iff {addr page : Nat} :
    alignDown addr 512 ≤ page ∧ page < alignUp (addr + 1) 512 ↔ page / 512 = addr / 512 := by
  unfold alignDown alignUp
  omega

section Boundaries
variable {s : Svms} {f : Fault} {vmStart vmEnd addr endLimit : Nat}

theorem limitAfter_spec (hs : s.Registered) (hout : s.Unregistered addr) (hlt : addr < endLimit) :
    addr < limitAfter s addr endLimit ∧ limitAfter s addr endLimit ≤ endLimit ∧
      (∀ id ∈ s.tree.dropWhile (endsBefore s addr),
        limitAfter s addr endLimit ≤ (s.heap id).itStart) ∧
      (limitAfter s addr endLimit = endLimit ∨
        ∃ id ∈ s.tree, (s.heap id).itStart = limitAfter s addr endLimit) := by
  unfold limitAfter
  cases hhead : (s.tree.dropWhile (endsBefore s addr)).head? with
  | none =>
    rw [head?_eq_none_iff.mp hhead]
    exact ⟨hlt, le_refl _, fun id hid => absurd hid not_mem_nil, .inl rfl⟩
  | some node =>
    have hnode := mem_of_head? hhead
    obtain ⟨node', hnode', haddr, -⟩ := hs.after hout hnode
    obtain rfl := some.inj (hhead.symm.trans hnode')
    refine ⟨Nat.lt_min.mpr ⟨hlt, haddr⟩, min_le_left _ _, fun id hid => ?_, ?_⟩
    · obtain ⟨node', hnode', -, hle⟩ := hs.after hout hid
      obtain rfl := some.inj (hhead.symm.trans hnode')
      exact (min_le_right _ _).trans hle
    · rcases le_total endLimit (s.heap node).itStart with hle | hle
      · exact .inl (min_eq_left hle)
      · exact .inr ⟨node, (dropWhile_suffix _).subset hnode, (min_eq_right hle).symm⟩

theorem getRangeBoundaries_ok (hs : s.Registered) (hvma : f.vma = some (vmStart, vmEnd))
    (hout : s.Unregistered f.addr) :
    ∃ start, svmRangeGetRangeBoundaries s f =
        .ok (start, limitAfter s f.addr (min vmEnd (alignUp (f.addr + 1) 512)) - 1) ∧
      max vmStart (alignDown f.addr 512) ≤ start ∧ start ≤ f.addr ∧
      (∀ id ∈ s.tree.takeWhile (endsBefore s f.addr), (s.heap id).itLast < start) ∧
      (start = max vmStart (alignDown f.addr 512) ∨
        ∃ id ∈ s.tree, (s.heap id).itLast + 1 = start) := by
  have hdown := alignDown_le f.addr 512
  have hvm : vmStart ≤ f.addr := (f.vma_has _ hvma).1
  unfold svmRangeGetRangeBoundaries
  simp only [hvma]
  cases hprev : (s.tree.takeWhile (endsBefore s f.addr)).getLast? with
  | none =>
    rw [getLast?_eq_none_iff.mp hprev]
    exact ⟨_, rfl, le_refl _, Nat.max_le.mpr ⟨hvm, hdown⟩,
      fun id hid => absurd hid not_mem_nil, .inl rfl⟩
  | some prev =>
    have hmem := mem_of_getLast? hprev
    have hlt := (hs.before hout hmem).1
    dsimp only
    rw [if_neg (not_le.mpr hlt)]
    refine ⟨_, rfl, le_max_left _ _, ?_, fun id hid => ?_, ?_⟩
    · exact Nat.max_le.mpr ⟨Nat.max_le.mpr ⟨hvm, hdown⟩, hlt⟩
    · have hle := (hs.before hout hid).2 prev hprev
      exact lt_of_le_of_lt hle (Nat.lt_of_succ_le (le_max_right _ _))
    · rcases le_total ((s.heap prev).itLast + 1) (max vmStart (alignDown f.addr 512)) with
        hle | hle
      · exact .inl (Nat.max_eq_left hle)
      · exact .inr ⟨prev, (List.takeWhile_prefix _).subset hmem, (Nat.max_eq_right hle).symm⟩

theorem getRangeBoundaries_spec (hs : s.Registered) (hvma : f.vma = some (vmStart, vmEnd))
    (hout : s.Unregistered f.addr) :
    ∃ start last, svmRangeGetRangeBoundaries s f = .ok (start, last) ∧
      start ≤ f.addr ∧ f.addr ≤ last ∧
      (∀ page, start ≤ page → page ≤ last → s.Available vmStart vmEnd f.addr page) ∧
      (∀ page, page + 1 = start → ¬s.Available vmStart vmEnd f.addr page) ∧
      ¬s.Available vmStart vmEnd f.addr (last + 1) := by
  have hvm := f.vma_has _ hvma
  have hup : f.addr + 1 ≤ alignUp (f.addr + 1) 512 := le_alignUp (by decide)
  have hlimit : f.addr < min vmEnd (alignUp (f.addr + 1) 512) := Nat.lt_min.mpr ⟨hvm.2, hup⟩
  obtain ⟨hend, hendLe, hafter, hendEdge⟩ := limitAfter_spec hs hout hlimit
  obtain ⟨start, hok, hstart, hle, hbefore, hstartEdge⟩ := getRangeBoundaries_ok hs hvma hout
  rw [hok]
  generalize limitAfter s f.addr (min vmEnd (alignUp (f.addr + 1) 512)) = limit at *
  rw [Nat.max_le] at hstart
  rw [Nat.le_min] at hendLe
  refine ⟨start, limit - 1, rfl, hle, by omega, fun page hlo hhi => ?_, fun page hpage h => ?_,
    fun h => ?_⟩
  · -- the ranges of the tree lie before the page of the fault or after it
    refine ⟨⟨by omega, by omega⟩, mem_block_iff.mp ⟨by omega, by omega⟩, fun id hid hin => ?_⟩
    rw [← takeWhile_append_dropWhile (p := endsBefore s f.addr) (l := s.tree)] at hid
    rcases mem_append.mp hid with hid | hid
    · have := hbefore id hid
      dsimp only at hin
      omega
    · have := hafter id hid
      dsimp only at hin
      omega
  · -- the page before the first one
    have hblock := mem_block_iff.mpr h.block
    have hpageVm := h.vma
    rcases hstartEdge with heq | ⟨id, hid, heq⟩
    · omega
    · have hle := hs.le id hid
      exact h.unregistered id hid ⟨by dsimp only; omega, by dsimp only; omega⟩
  · have hblock := mem_block_iff.mpr h.block
    have hpageVm := h.vma
    rcases hendEdge with heq | ⟨id, hid, heq⟩
    · omega
    · have hle := hs.le id hid
      exact h.unregistered id hid ⟨by dsimp only; omega, by dsimp only; omega⟩

/-- For a page that is in the VMA and in no range, the boundaries are those of the widest
interval around it that is in the VMA, in the block of 512 pages and in no range. -/
theorem rangeBoundaries_widest (s : Svms) (f : Fault) (hs : s.Registered)
    (hvma : f.vma = some (vmStart, vmEnd)) (hout : s.Unregistered f.addr) :
    ∃ start last, svmRangeGetRangeBoundaries s f = .ok (start, last) ∧
      Widest (s.Available vmStart vmEnd f.addr) f.addr start last := by
  obtain ⟨start, last, hok, hlo, hhi, hin, hleft, hright⟩ := getRangeBoundaries_spec hs hvma hout
  exact ⟨start, last, hok, Widest.of_edges hlo hhi hin hleft hright⟩

end Boundaries

/-! ## Two neighbours -/

def exNeighbours : Svms :=
  { heap := fun id =>
      if id = 0 then (svmRangeNew exProcess 512 519).synced
      else (svmRangeNew exProcess 523 600).synced
    next := 2
    list := [0, 1]
    tree := [0, 1] }

def exFaultBetween : Fault :=
  { addr := 520
    xnackSeen := true
    vma := some (510, 1024)
    vma_has := by simp
    isHeapStack := false
    bo := none
    newOk := true
    gpuOk := true }

theorem exNeighbours_registered : exNeighbours.Registered where
  le := by decide
  sorted := by decide

theorem rangeBoundaries_widest_exNeighbours :
    ∃ start last, svmRangeGetRangeBoundaries exNeighbours exFaultBetween = .ok (start, last) ∧
      Widest (exNeighbours.Available 510 1024 520) 520 start last :=
  have hout : exNeighbours.Unregistered 520 := by
    unfold Svms.Unregistered Outside
    decide
  rangeBoundaries_widest exNeighbours exFaultBetween exNeighbours_registered rfl hout

example : svmRangeGetRangeBoundaries exNeighbours exFaultBetween = .ok (520, 522) := by
  decide +kernel

end Amdkfd.Svm

import Amdkfd.Svm.Split

/-!
# Ranges to remap after a split

`svm_range_split_tail` and `svm_range_split_head` put the piece that they split off on
`remap_list` when the cut goes through a huge page of the old range: through an aligned
block of 512 pages that lies inside of it. The last of these blocks is missed when the range
ends with it, and `svm_range_split_head` looks at the page before the cut for its alignment.
-/

namespace Amdkfd.Svm

/-- The cut before `page` is strictly inside of an aligned block of 512 pages that lies
inside of the range. -/
def Range.CutsBlock (r : Range) (page : Nat) : Prop :=
  ∃ k, r.start ≤ 512 * k ∧ 512 * k + 511 ≤ r.last ∧ 512 * k < page ∧ page < 512 * k + 512

/-- The range ends with a block, and the cut goes through that block. -/
def Range.CutsLastBlock (r : Range) (page : Nat) : Prop :=
  (r.last + 1) % 512 = 0 ∧ r.start + 511 ≤ r.last ∧ r.last < page + 511 ∧ page ≤ r.last
  deriving Decidable

/-- The cut is between two blocks, or one page after that, and it is between the limits that
the code computes. -/
def Range.CutsAtEdge (r : Range) (page : Nat) : Prop :=
  alignUp r.start 512 < page ∧ page < alignDown r.last 512 ∧ page % 512 ≤ 1
  deriving Decidable

/-- The range that was allocated on the way from `a` to `b` is put on `remap_list`. -/
def AddState.Remapped (a b : AddState) : Prop :=
  b.remap = a.svms.next :: a.remap

section Remap
variable {p : Process} {al : Alloc} {a : AddState} {r : Range} {id page edge : Nat}

theorem cutsBlock_iff : r.CutsBlock page ↔
    r.start ≤ 512 * (page / 512) ∧ 512 * (page / 512) + 511 ≤ r.last ∧ page % 512 ≠ 0 := by
  constructor
  · rintro ⟨k, hstart, hlast, hlo, hhi⟩
    obtain rfl : k = page / 512 := by omega
    exact ⟨hstart, hlast, by omega⟩
  · rintro ⟨hstart, hlast, hpage⟩
    exact ⟨page / 512, hstart, hlast, by omega, by omega⟩

theorem cutsHugePage_iff : cutsHugePage r page edge = true ↔
    alignUp r.start 512 < page ∧ page < alignDown r.last 512 ∧ edge % 512 ≠ 0 := by
  unfold cutsHugePage
  simp only [Bool.and_eq_true, decide_eq_true_eq]
  constructor
  · rintro ⟨⟨⟨-, hlo⟩, hhi⟩, hedge⟩
    exact ⟨hlo, hhi, hedge⟩
  · rintro ⟨hlo, hhi, hedge⟩
    exact ⟨⟨⟨hlo.trans hhi, hlo⟩, hhi⟩, hedge⟩

theorem cutsHugePage_tail_iff :
    (cutsHugePage r page page = true ↔ r.CutsBlock page) ↔ ¬r.CutsLastBlock page := by
  rw [cutsHugePage_iff, cutsBlock_iff]
  unfold Range.CutsLastBlock alignUp alignDown
  omega

theorem cutsHugePage_head_iff (hpage : 0 < page) :
    (cutsHugePage r page (page - 1) = true ↔ r.CutsBlock page) ↔
      ¬r.CutsLastBlock page ∧ ¬r.CutsAtEdge page := by
  rw [cutsHugePage_iff, cutsBlock_iff]
  unfold Range.CutsLastBlock Range.CutsAtEdge alignUp alignDown
  omega

theorem cutsHugePage_end : cutsHugePage r (r.last + 1) edge = false := by
  rw [Bool.eq_false_iff, Ne, cutsHugePage_iff]
  unfold alignDown
  omega

theorem remapped_ite {c : Bool} {b : AddState}
    (hremap : b.remap = if c then a.svms.next :: a.remap else a.remap) :
    a.Remapped b ↔ c = true := by
  unfold AddState.Remapped
  rw [hremap]
  cases c with
  | false | true => simp

theorem svmRangeSplitTail_remapped {newLast : Nat}
    (h : (svmRangeSplitTail p al id newLast a).2 = none) :
    a.Remapped (svmRangeSplitTail p al id newLast a).1 ↔
      cutsHugePage (a.svms.heap id) (newLast + 1) (newLast + 1) = true := by
  unfold svmRangeSplitTail at h ⊢
  dsimp only at h ⊢
  split at h
  · cases h
  · next prange' tail hsplit =>
    have htail : tail.start = newLast + 1 := by
      rcases svmRangeSplit_ok hsplit with ⟨-, -, -, heq⟩ | ⟨hlt, -⟩
      · exact congrArg (fun q => q.2.start) heq
      · exact absurd hlt (Nat.lt_irrefl _)
    rw [← htail]
    exact remapped_ite rfl

theorem svmRangeSplitHead_remapped {newStart : Nat}
    (h : (svmRangeSplitHead p al id newStart a).2 = none) :
    (a.svms.heap id).start ≤ newStart ∧
      (a.Remapped (svmRangeSplitHead p al id newStart a).1 ↔
        (a.svms.heap id).start < newStart ∧
          cutsHugePage (a.svms.heap id) newStart (newStart - 1) = true) := by
  unfold svmRangeSplitHead at h ⊢
  dsimp only at h ⊢
  split at h
  · cases h
  · next prange' head hsplit =>
    refine (svmRangeSplit_ok hsplit).elim ?_ ?_
    · rintro ⟨hstart, -, -, heq⟩
      have hhead : head.last = (a.svms.heap id).last := congrArg (fun q => q.2.last) heq
      refine ⟨hstart.le, (remapped_ite rfl).trans ?_⟩
      rw [hhead, cutsHugePage_end]
      simp [hstart]
    · rintro ⟨hlt, -, -, heq⟩
      have hhead : head.last = newStart - 1 := congrArg (fun q => q.2.last) heq
      refine ⟨hlt.le, (remapped_ite rfl).trans ?_⟩
      have hpage : newStart - 1 + 1 = newStart := by omega
      rw [hhead, hpage]
      exact ⟨fun h => ⟨hlt, h⟩, fun h => h.2⟩

/-- A tail that is split off is put on the list exactly for the cuts of a block, unless the
cut is in a last block with which the range ends; and a head, unless it is there or at the
edge of a block. -/
theorem remapped_iff (p : Process) (al : Alloc) (a : AddState) (id : Nat) :
    (∀ newLast, (svmRangeSplitTail p al id newLast a).2 = none →
      ((a.Remapped (svmRangeSplitTail p al id newLast a).1 ↔
          (a.svms.heap id).CutsBlock (newLast + 1)) ↔
        ¬(a.svms.heap id).CutsLastBlock (newLast + 1))) ∧
    ∀ newStart, (svmRangeSplitHead p al id newStart a).2 = none →
      ((a.Remapped (svmRangeSplitHead p al id newStart a).1 ↔
          (a.svms.heap id).CutsBlock newStart) ↔
        ¬(a.svms.heap id).CutsLastBlock newStart ∧ ¬(a.svms.heap id).CutsAtEdge newStart) := by
  refine ⟨fun newLast h => ?_, fun newStart h => ?_⟩
  · rw [svmRangeSplitTail_remapped h]
    exact cutsHugePage_tail_iff
  · obtain ⟨hle, hiff⟩ := svmRangeSplitHead_remapped h
    rw [hiff]
    rcases hle.lt_or_eq with hlt | heq
    · rw [and_iff_right hlt]
      exact cutsHugePage_head_iff (by omega)
    · -- no cut: the conditions hold and neither side does
      have hno : ¬(a.svms.heap id).CutsBlock newStart := by
        rintro ⟨k, hstart, -, hlo, -⟩
        omega
      refine iff_of_true (iff_of_false (fun h => ?_) hno) ⟨fun hlast => ?_, fun hedge => ?_⟩
      · exact absurd h.1 (Nat.not_lt.mpr heq.ge)
      · unfold Range.CutsLastBlock at hlast
        omega
      · unfold Range.CutsAtEdge alignUp at hedge
        omega

end Remap

/-! ## A block that is missed -/

def exRemapProcess : Process :=
  { xnackEnabled := true
    gpuIds := [1]
    bitmapSupported := {0}
    maxSvmRangePages := 512
    maxSvmRangePages_pos := maxSvmRangePages_512 }

def exRemapState (last : Nat) : AddState :=
  { svms :=
      { heap := fun _ => svmRangeNew exRemapProcess 512 last
        next := 1
        list := []
        tree := [] }
    insert := [0]
    news := []
    update := [0]
    remove := []
    remap := [] }

def exRemapAlloc : Alloc :=
  { new := fun _ => true
    dma := fun _ => true }

/-- A cut in the first of two blocks and a bit, from either side. -/
theorem remapped_iff_exRemap :
    ((exRemapState 2000).Remapped (svmRangeSplitTail exRemapProcess exRemapAlloc 0 700
        (exRemapState 2000)).1 ↔ (svmRangeNew exRemapProcess 512 2000).CutsBlock 701) ∧
      ((exRemapState 2000).Remapped (svmRangeSplitHead exRemapProcess exRemapAlloc 0 700
        (exRemapState 2000)).1 ↔ (svmRangeNew exRemapProcess 512 2000).CutsBlock 700) := by
  obtain ⟨htail, hhead⟩ := remapped_iff exRemapProcess exRemapAlloc (exRemapState 2000) 0
  exact ⟨(htail 700 (by decide)).mpr (by decide), (hhead 700 (by decide)).mpr (by decide)⟩

/-- The range is one block, and it is cut in the middle: the tail is not put on the list. In a
range of two blocks and a bit, a head that ends with the first block is. -/
theorem remap_broken :
    (svmRangeSplitTail exRemapProcess exRemapAlloc 0 767 (exRemapState 1023)).2 = none ∧
      (svmRangeNew exRemapProcess 512 1023).CutsBlock 768 ∧
      ¬(exRemapState 1023).Remapped
        (svmRangeSplitTail exRemapProcess exRemapAlloc 0 767 (exRemapState 1023)).1 ∧
      (svmRangeSplitHead exRemapProcess exRemapAlloc 0 1024 (exRemapState 2000)).2 = none ∧
      ¬(svmRangeNew exRemapProcess 512 2000).CutsBlock 1024 ∧
      (exRemapState 2000).Remapped
        (svmRangeSplitHead exRemapProcess exRemapAlloc 0 1024 (exRemapState 2000)).1 := by
  have htail : (svmRangeSplitTail exRemapProcess exRemapAlloc 0 767 (exRemapState 1023)).2 =
      none := by decide
  have hhead : (svmRangeSplitHead exRemapProcess exRemapAlloc 0 1024 (exRemapState 2000)).2 =
      none := by decide
  refine ⟨htail, ⟨1, by decide⟩, fun h => ?_, hhead, fun h => ?_, ?_⟩
  · exact absurd ((svmRangeSplitTail_remapped htail).mp h) (by decide)
  · exact absurd (cutsBlock_iff.mp h) (by decide)
  · exact (svmRangeSplitHead_remapped hhead).2.mpr ⟨by decide, by decide⟩

end Amdkfd.Svm

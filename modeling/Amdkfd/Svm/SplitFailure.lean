import Amdkfd.Svm.Split

/-!
# Splits that run out of memory

`svm_range_split` with the outcome of every allocation: of the new range, and of the two
arrays that replace the DMA addresses of each GPU. `svm_range_split_pages` replaces the
arrays of one GPU after the other, and a failure does not bring back those that it has
replaced.
-/

namespace Amdkfd.Svm

open List

/-- The outcome of the allocations of a split: of the new range, and by GPU of the array of
the new range and of the one that the old range keeps. -/
structure SplitAllocs where
  range : Bool
  new : Nat → Bool
  old : Nat → Bool

/-- What the loop of `svm_range_split_pages` leaves: the arrays of the two ranges, and the
counter of the new one. -/
structure SplitArrays where
  old : List (Option (List UInt64))
  new : List (Option (List UInt64))
  vramPages : UInt64
  err : Option Errno
  deriving DecidableEq

/-- The counter after `svm_range_copy_array` for the new range, which counts while it
copies. -/
def countVram (old new : Range) (n : UInt64) : Option (List UInt64) → UInt64
  | none => n
  | some arr =>
    if old.actualLoc = 0 then n else UInt64.ofNat ((newArray old new arr).countP isVramAddr)

/-- The loop of `svm_range_split_pages` from GPU `i` on, with `svm_range_split_array`. The old
range keeps `npages` pages. -/
def splitPagesLoop (al : SplitAllocs) (new old : Range) (npages : Nat) :
    Nat → List (Option (List UInt64)) → UInt64 → SplitArrays
  | _, [], vramPages => { old := [], new := [], vramPages := vramPages, err := none }
  | i, none :: arrs, vramPages =>
    let r := splitPagesLoop al new old npages (i + 1) arrs vramPages
    { r with old := none :: r.old, new := none :: r.new }
  | i, some arr :: arrs, vramPages =>
    let failed : SplitArrays :=
      { old := some arr :: arrs, new := none :: arrs.map fun _ => none, vramPages := vramPages,
        err := some .enomem }
    if al.new i = false then failed
    else
      let vramPages := countVram old new vramPages (some arr)
      if al.old i = false then { failed with vramPages := vramPages }
      else
        let r := splitPagesLoop al new old npages (i + 1) arrs vramPages
        { r with
          old := some (oldArray old new npages arr) :: r.old
          new := some (newArray old new arr) :: r.new }

structure SplitResult where
  old : Range
  new : Option Range
  err : Option Errno
  deriving DecidableEq

/-- The first two checks of `svm_range_split`, before it writes to `*new`. -/
def splitRefuses (prange : Range) (start last : Nat) : Bool :=
  (prange.start ≠ start && prange.last ≠ last) || (start < prange.start || prange.last < last)

def splitNew (p : Process) (prange : Range) (start last : Nat) : Range :=
  if prange.start = start then svmRangeNew p (last + 1) prange.last
  else svmRangeNew p prange.start (start - 1)

def svmRangeSplitAllocs (p : Process) (al : SplitAllocs) (prange : Range) (start last : Nat) :
    SplitResult :=
  if splitRefuses prange start last then { old := prange, new := none, err := some .einval }
  else if al.range = false then { old := prange, new := none, err := some .enomem }
  else
    let new := splitNew p prange start last
    if new.start < prange.start ∨ prange.last < new.last then
      { old := prange, new := none, err := some .einval }
    else
      let r := splitPagesLoop al new prange (last + 1 - start) 0 prange.dmaAddr new.vramPages
      match r.err with
      | some e => { old := { prange with dmaAddr := r.old }, new := none, err := some e }
      | none =>
        let q := splitAdjust new prange start last
        { old :=
            { q.1 with
              dmaAddr := r.old
              vramPages :=
                if prange.actualLoc = 0 then prange.vramPages
                else prange.vramPages - r.vramPages }
          new := some { q.2 with dmaAddr := r.new, vramPages := r.vramPages }
          err := none }

/-! ## What fails -/

def SplitAllocs.failsFor (al : SplitAllocs) (x : Option (List UInt64) × Nat) : Bool :=
  x.1.isSome && !(al.new x.2 && al.old x.2)

def SplitAllocs.Fails (al : SplitAllocs) (r : Range) : Prop :=
  al.range = false ∨ r.dmaAddr.zipIdx.any al.failsFor = true
  deriving Decidable

def SplitAllocs.FailsFirst (al : SplitAllocs) (r : Range) : Prop :=
  (r.dmaAddr.zipIdx.find? (·.1.isSome)).any al.failsFor = true
  deriving Decidable

structure Range.Formed (r : Range) : Prop where
  le : r.start ≤ r.last
  sized : r.Sized
  arrays : ∀ arr, some arr ∈ r.dmaAddr → arr.length = r.npages

structure Intact (r r' : Range) : Prop where
  start : r'.start = r.start
  last : r'.last = r.last
  npages : r'.npages = r.npages
  offset : r'.offset = r.offset
  vramPages : r'.vramPages = r.vramPages
  svmBo : r'.svmBo = r.svmBo
  dma : ∀ gpu page, r.Has page → r'.dmaAt gpu page = r.dmaAt gpu page

section Loop
variable {al : SplitAllocs} {new old : Range} {npages i : Nat} {vramPages : UInt64}
  {arrs : List (Option (List UInt64))}

theorem splitPagesLoop_some (al : SplitAllocs) (new old : Range) (npages i : Nat)
    (arrs : List (Option (List UInt64))) (vramPages : UInt64) (arr : List UInt64) :
    (al.failsFor (some arr, i) = true ∧
      (splitPagesLoop al new old npages i (some arr :: arrs) vramPages).old = some arr :: arrs ∧
      (splitPagesLoop al new old npages i (some arr :: arrs) vramPages).err = some .enomem) ∨
    al.failsFor (some arr, i) = false ∧
      splitPagesLoop al new old npages i (some arr :: arrs) vramPages =
        let r := splitPagesLoop al new old npages (i + 1) arrs
          (countVram old new vramPages (some arr))
        { r with
          old := some (oldArray old new npages arr) :: r.old
          new := some (newArray old new arr) :: r.new } := by
  unfold SplitAllocs.failsFor
  rw [splitPagesLoop]
  cases hnew : al.new i with
  | false =>
    rw [if_pos rfl]
    exact .inl ⟨rfl, rfl, rfl⟩
  | true =>
    cases hold : al.old i with
    | false =>
      rw [if_neg (by simp), if_pos rfl]
      exact .inl ⟨rfl, rfl, rfl⟩
    | true =>
      rw [if_neg (by simp), if_neg (by simp)]
      exact .inr ⟨rfl, rfl⟩

variable (arrs : List (Option (List UInt64)))

theorem splitPagesLoop_err : ∀ (i : Nat) (vramPages : UInt64),
    (splitPagesLoop al new old npages i arrs vramPages).err =
      if (arrs.zipIdx i).any al.failsFor then some .enomem else none := by
  induction arrs with
  | nil => exact fun _ _ => rfl
  | cons x arrs ih =>
    intro i vramPages
    rw [zipIdx_cons, any_cons]
    cases x with
    | none => exact ih (i + 1) vramPages
    | some arr =>
      rcases splitPagesLoop_some al new old npages i arrs vramPages arr with
        ⟨hfail, -, herr⟩ | ⟨hok, heq⟩
      · rw [herr, hfail, Bool.true_or, if_pos rfl]
      · rw [heq, hok, Bool.false_or]
        exact ih (i + 1) _

theorem splitPagesLoop_ok : ∀ (i : Nat) (vramPages : UInt64),
    (arrs.zipIdx i).any al.failsFor = false →
    splitPagesLoop al new old npages i arrs vramPages =
      { old := arrs.map (·.map (oldArray old new npages))
        new := arrs.map (·.map (newArray old new))
        vramPages := arrs.foldl (countVram old new) vramPages
        err := none } := by
  induction arrs with
  | nil => exact fun _ _ _ => rfl
  | cons x arrs ih =>
    intro i vramPages h
    rw [zipIdx_cons, any_cons, Bool.or_eq_false_iff] at h
    cases x with
    | none =>
      rw [splitPagesLoop, ih (i + 1) vramPages h.2]
      rfl
    | some arr =>
      rcases splitPagesLoop_some al new old npages i arrs vramPages arr with
        ⟨hfail, -, -⟩ | ⟨-, heq⟩
      · rw [h.1] at hfail
        cases hfail
      · rw [heq, ih (i + 1) _ h.2]
        rfl

theorem newVramPages_eq (old new : Range) :
    newVramPages old new = old.dmaAddr.foldl (countVram old new) new.vramPages := by
  unfold newVramPages
  split
  · next hloc =>
    induction old.dmaAddr with
    | nil => rfl
    | cons x arrs ih =>
      have hsame : countVram old new new.vramPages x = new.vramPages := by
        cases x with
        | none => rfl
        | some arr => exact if_pos hloc
      rw [foldl_cons, hsame]
      exact ih
  · next hloc =>
    congr 1
    funext n x
    cases x with
    | none => rfl
    | some arr => exact (if_neg hloc).symm

theorem splitPagesLoop_first :
    ∀ (i : Nat) (vramPages : UInt64),
    ((arrs.zipIdx i).find? (·.1.isSome)).any al.failsFor = true →
    (splitPagesLoop al new old npages i arrs vramPages).old = arrs := by
  induction arrs with
  | nil => exact fun _ _ _ => rfl
  | cons x arrs ih =>
    intro i vramPages h
    rw [zipIdx_cons] at h
    cases x with
    | none =>
      rw [find?_cons_of_neg (by simp)] at h
      rw [splitPagesLoop]
      exact congrArg (none :: ·) (ih (i + 1) vramPages h)
    | some arr =>
      rw [find?_cons_of_pos (by simp)] at h
      rcases splitPagesLoop_some al new old npages i arrs vramPages arr with ⟨-, hold, -⟩ | ⟨hok, -⟩
      · exact hold
      · exact absurd (hok.symm.trans h) Bool.false_ne_true

theorem splitPagesLoop_whole :
    ∀ (i : Nat) (vramPages : UInt64),
    (∀ arr, some arr ∈ arrs → oldArray old new npages arr = arr) →
    (splitPagesLoop al new old npages i arrs vramPages).old = arrs := by
  induction arrs with
  | nil => exact fun _ _ _ => rfl
  | cons x arrs ih =>
    intro i vramPages h
    have hrest := fun arr harr => h arr (mem_cons_of_mem x harr)
    cases x with
    | none =>
      rw [splitPagesLoop]
      exact congrArg (none :: ·) (ih (i + 1) vramPages hrest)
    | some arr =>
      rcases splitPagesLoop_some al new old npages i arrs vramPages arr with ⟨-, hold, -⟩ | ⟨-, heq⟩
      · exact hold
      · rw [heq]
        dsimp only
        rw [h arr mem_cons_self, ih (i + 1) _ hrest]

theorem splitPagesLoop_later :
    ∀ (i : Nat) (vramPages : UInt64), (arrs.zipIdx i).any al.failsFor = true →
    ((arrs.zipIdx i).find? (·.1.isSome)).any al.failsFor = false →
    ∃ (gpu : Nat) (arr : List UInt64), arrs[gpu]? = some (some arr) ∧
      (splitPagesLoop al new old npages i arrs vramPages).old[gpu]? =
        some (some (oldArray old new npages arr)) := by
  induction arrs with
  | nil =>
    intro i vramPages h _
    cases h
  | cons x arrs ih =>
    intro i vramPages h hfirst
    rw [zipIdx_cons, any_cons] at h
    rw [zipIdx_cons] at hfirst
    cases x with
    | none =>
      rw [find?_cons_of_neg (by simp)] at hfirst
      obtain ⟨gpu, arr, harr, hold⟩ := ih (i + 1) vramPages h hfirst
      exact ⟨gpu + 1, arr, harr, hold⟩
    | some arr =>
      rw [find?_cons_of_pos (by simp)] at hfirst
      refine ⟨0, arr, rfl, ?_⟩
      rcases splitPagesLoop_some al new old npages i arrs vramPages arr with
        ⟨hfail, -, -⟩ | ⟨-, heq⟩
      · exact absurd (hfirst.symm.trans hfail) Bool.false_ne_true
      · rw [heq]
        rfl

end Loop

section Split
variable {p : Process} {al : SplitAllocs} {r old new : Range} {start last : Nat}

def SplitAccepts (p : Process) (r : Range) (start last : Nat) : Prop :=
  ∃ old new, svmRangeSplit p true true r start last = .ok (old, new)

theorem splitAccepts_cases (h : SplitAccepts p r start last) :
    splitRefuses r start last = false ∧
      ¬((splitNew p r start last).start < r.start ∨ r.last < (splitNew p r start last).last) ∧
      (r.start = start ∧ start ≤ last + 1 ∧ last ≤ r.last ∨
        r.start < start ∧ start ≤ last + 1 ∧ last = r.last) := by
  obtain ⟨old, new, h⟩ := h
  rcases svmRangeSplit_ok h with ⟨hstart, hle, hlast, -⟩ | ⟨hstart, hle, hlast, -⟩
  · refine ⟨?_, ?_, .inl ⟨hstart, hle, hlast⟩⟩
    · simp [splitRefuses, hstart, hlast]
    · rw [splitNew, if_pos hstart, svmRangeNew_start, svmRangeNew_last]
      omega
  · refine ⟨?_, ?_, .inr ⟨hstart, hle, hlast⟩⟩
    · simp [splitRefuses, hstart.le, hlast]
    · rw [splitNew, if_neg hstart.ne, svmRangeNew_start, svmRangeNew_last]
      omega

theorem svmRangeSplit_eq (hsplit : SplitAccepts p r start last) :
    svmRangeSplit p true true r start last =
      .ok (splitAdjust (splitNew p r start last) r start last) := by
  obtain ⟨-, -, hcases⟩ := splitAccepts_cases hsplit
  obtain ⟨old, new, h⟩ := hsplit
  rw [h]
  rcases svmRangeSplit_ok h with ⟨hstart, -, -, heq⟩ | ⟨hstart, -, -, heq⟩
  · rw [heq, splitNew, if_pos hstart]
  · rw [heq, splitNew, if_neg hstart.ne]

theorem splitNew_vramPages : (splitNew p r start last).vramPages = 0 := by
  unfold splitNew
  split
  · rfl
  · rfl

section
variable (hsplit : SplitAccepts p r start last)
include hsplit

theorem svmRangeSplitAllocs_eq (hrange : al.range = true) :
    svmRangeSplitAllocs p al r start last =
      let l := splitPagesLoop al (splitNew p r start last) r (last + 1 - start) 0 r.dmaAddr 0
      match l.err with
      | some e => { old := { r with dmaAddr := l.old }, new := none, err := some e }
      | none =>
        let q := splitAdjust (splitNew p r start last) r start last
        { old :=
            { q.1 with
              dmaAddr := l.old
              vramPages := if r.actualLoc = 0 then r.vramPages else r.vramPages - l.vramPages }
          new := some { q.2 with dmaAddr := l.new, vramPages := l.vramPages }
          err := none } := by
  obtain ⟨hrefuses, hfits, -⟩ := splitAccepts_cases hsplit
  unfold svmRangeSplitAllocs
  rw [hrefuses, if_neg Bool.false_ne_true, hrange, if_neg (by simp)]
  dsimp only
  rw [if_neg hfits, splitNew_vramPages]

theorem svmRangeSplitAllocs_ok (hfails : ¬al.Fails r) :
    let q := splitAdjust (splitNew p r start last) r start last
    svmRangeSplit p true true r start last = .ok q ∧
      svmRangeSplitAllocs p al r start last = { old := q.1, new := some q.2, err := none } := by
  obtain ⟨hrange, hdma⟩ := not_or.mp hfails
  rw [Bool.not_eq_false] at hrange
  rw [Bool.not_eq_true] at hdma
  refine ⟨svmRangeSplit_eq hsplit, ?_⟩
  rw [svmRangeSplitAllocs_eq hsplit hrange, splitPagesLoop_ok r.dmaAddr 0 0 hdma]
  dsimp only
  have hvram : 0 = (splitNew p r start last).vramPages := splitNew_vramPages.symm
  rw [hvram, ← newVramPages_eq]
  rfl

theorem svmRangeSplitAllocs_error (hfails : al.Fails r) :
    ∃ arrs, svmRangeSplitAllocs p al r start last =
        { old := { r with dmaAddr := arrs }, new := none, err := some .enomem } ∧
      arrs = if al.range = false then r.dmaAddr
        else
          (splitPagesLoop al (splitNew p r start last) r (last + 1 - start) 0 r.dmaAddr 0).old := by
  by_cases hrange : al.range = false
  · refine ⟨r.dmaAddr, ?_, (if_pos hrange).symm⟩
    unfold svmRangeSplitAllocs
    rw [(splitAccepts_cases hsplit).1, if_neg Bool.false_ne_true, if_pos hrange]
  · have hdma : r.dmaAddr.zipIdx.any al.failsFor = true := hfails.resolve_left hrange
    refine ⟨_, ?_, (if_neg hrange).symm⟩
    rw [svmRangeSplitAllocs_eq hsplit (Bool.not_eq_false _ ▸ hrange)]
    dsimp only
    rw [splitPagesLoop_err, if_pos hdma]

end

variable {arrs : List (Option (List UInt64))} {arr : List UInt64}

theorem Intact.ofDmaAddr (h : arrs = r.dmaAddr) : Intact r { r with dmaAddr := arrs } := by
  subst h
  exact ⟨rfl, rfl, rfl, rfl, rfl, rfl, fun _ _ _ => rfl⟩

theorem oldArray_whole (hr : r.Formed) (harr : some arr ∈ r.dmaAddr) :
    oldArray r (splitNew p r r.start r.last) (r.last + 1 - r.start) arr = arr := by
  have hle := hr.le
  have hsized := hr.sized
  unfold Range.Sized at hsized
  have hne : (splitNew p r r.start r.last).start ≠ r.start := by
    rw [splitNew, if_pos rfl, svmRangeNew_start]
    omega
  unfold oldArray
  rw [if_neg hne, drop_zero]
  exact take_of_length_le (by have := hr.arrays arr harr; omega)

theorem not_intact_of_replaced (hr : r.Formed) (hpart : last + 1 - start < r.npages) {gpu : Nat}
    {n : Range} (harr : r.dmaAddr[gpu]? = some (some arr))
    (hold : arrs[gpu]? = some (some (oldArray r n (last + 1 - start) arr))) :
    ¬Intact r { r with dmaAddr := arrs } := by
  intro h
  have hle := hr.le
  have hsized := hr.sized
  unfold Range.Sized at hsized
  have hlen := hr.arrays arr (mem_of_getElem? harr)
  have hdma := h.dma gpu r.last ⟨hle, Nat.le_refl _⟩
  unfold Range.dmaAt at hdma
  dsimp only at hdma
  rw [hold, harr] at hdma
  simp only [Option.join_some, Option.bind_some] at hdma
  have hnone : (oldArray r n (last + 1 - start) arr)[r.last - r.start]? = none := by
    refine getElem?_eq_none ((length_take_le _ _).trans ?_)
    omega
  rw [hnone] at hdma
  exact absurd (getElem?_eq_none_iff.mp hdma.symm) (by omega)

/-- A split for which an allocation fails returns an error and no new range. It leaves the
range intact exactly when the first allocation fails, or one for the first GPU with an
array, or when the range would have kept all its pages. -/
theorem split_intact_iff (p : Process) (al : SplitAllocs) (hr : r.Formed)
    (hsplit : SplitAccepts p r start last) (hfails : al.Fails r) :
    (∃ e, (svmRangeSplitAllocs p al r start last).err = some e) ∧
      (svmRangeSplitAllocs p al r start last).new = none ∧
      (Intact r (svmRangeSplitAllocs p al r start last).old ↔
        al.range = false ∨ al.FailsFirst r ∨ start = r.start ∧ last = r.last) := by
  obtain ⟨arrs, heq, harrs⟩ := svmRangeSplitAllocs_error hsplit hfails
  rw [heq]
  refine ⟨⟨_, rfl⟩, rfl, ?_⟩
  by_cases hrange : al.range = false
  · rw [if_pos hrange] at harrs
    exact iff_of_true (Intact.ofDmaAddr harrs) (.inl hrange)
  rw [if_neg hrange] at harrs
  by_cases hfirst : al.FailsFirst r
  · rw [splitPagesLoop_first r.dmaAddr 0 0 hfirst] at harrs
    exact iff_of_true (Intact.ofDmaAddr harrs) (.inr (.inl hfirst))
  by_cases hwhole : start = r.start ∧ last = r.last
  · obtain ⟨rfl, rfl⟩ := hwhole
    rw [splitPagesLoop_whole r.dmaAddr 0 0 fun arr harr => oldArray_whole hr harr] at harrs
    exact iff_of_true (Intact.ofDmaAddr harrs) (.inr (.inr ⟨rfl, rfl⟩))
  · -- a GPU before the one that failed has a shorter array already
    refine iff_of_false ?_ fun h => h.elim hrange fun h => h.elim hfirst hwhole
    have hpart : last + 1 - start < r.npages := by
      have hsized := hr.sized
      have hle := hr.le
      unfold Range.Sized at hsized
      have hcases := (splitAccepts_cases hsplit).2.2
      omega
    obtain ⟨gpu, arr, harr, hold⟩ := @splitPagesLoop_later al (splitNew p r start last) r
      (last + 1 - start) r.dmaAddr 0 0 (hfails.resolve_left hrange) (Bool.not_eq_true _ ▸ hfirst)
    exact not_intact_of_replaced hr hpart harr (harrs ▸ hold)

end Split

/-! ## Two GPUs -/

def exSplitProcess : Process :=
  { xnackEnabled := true
    gpuIds := [1, 2]
    bitmapSupported := {0, 1}
    maxSvmRangePages := 512
    maxSvmRangePages_pos := maxSvmRangePages_512 }

def exTwoArrays : Range :=
  { svmRangeNew exSplitProcess 4 7 with
    dmaAddr :=
      [some [0x1000, 0x2000, 0x3000, 0x4000], some [0x5000, 0x6000, 0x7000, 0x8000]] ++
        replicate (maxGpuInstance - 2) none }

theorem exTwoArrays_formed : exTwoArrays.Formed where
  le := by decide
  sized := rfl
  arrays := by
    intro arr harr
    rcases mem_append.mp harr with harr | harr
    · simp only [mem_cons, not_mem_nil, Option.some.injEq, or_false] at harr
      rcases harr with rfl | rfl
      · rfl
      · rfl
    · cases eq_of_mem_replicate harr

theorem exTwoArrays_accepts : SplitAccepts exSplitProcess exTwoArrays 4 5 :=
  have hlast : 5 < exTwoArrays.last := by decide
  ⟨_, _, svmRangeSplit_tail (by decide) hlast⟩

def exFailsFor (gpu : Nat) : SplitAllocs :=
  { range := true
    new := fun i => i ≠ gpu
    old := fun _ => true }

theorem split_intact_iff_exTwoArrays :
    Intact exTwoArrays (svmRangeSplitAllocs exSplitProcess (exFailsFor 0) exTwoArrays 4 5).old :=
  (split_intact_iff exSplitProcess (exFailsFor 0) exTwoArrays_formed exTwoArrays_accepts
    (by decide)).2.2.mpr (by decide)

/-- The array of the second GPU cannot be allocated, and the first GPU has lost the addresses
of the last two pages. -/
theorem split_broken :
    SplitAccepts exSplitProcess exTwoArrays 4 5 ∧ (exFailsFor 1).Fails exTwoArrays ∧
      ¬Intact exTwoArrays
        (svmRangeSplitAllocs exSplitProcess (exFailsFor 1) exTwoArrays 4 5).old := by
  refine ⟨exTwoArrays_accepts, by decide, fun h => ?_⟩
  have hdma := h.dma 0 7 (by decide)
  exact absurd hdma (by decide)

end Amdkfd.Svm

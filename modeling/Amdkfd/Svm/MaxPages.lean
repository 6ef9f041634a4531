import Amdkfd.Lib.CompareExchange
import Amdkfd.Svm.IsValid
import Mathlib.Data.UInt

/-!
# The largest size of a new range

`svm_range_set_max_pages` derives a number of pages from the memory of a device and merges it into
`max_svm_range_pages`, which all devices share. `svm_range_split_new` cuts an interval at the
multiples of that number. Both count in 64 bits.
-/

namespace Amdkfd.Svm

open Lib List

/-! ## The number of a device -/

def minNotZero (x y : Nat) : Nat :=
  if x = 0 then y else if y = 0 then x else min x y

def rounddownPowOfTwo (n : Nat) : Nat :=
  2 ^ n.log2

abbrev KfdNode := Option Nat

/-- The nodes of a device, and `KFD_XCP_MEMORY_SIZE` for an id. -/
structure Adev where
  nodes : List KfdNode
  memorySize : Int → UInt64

def Adev.pages (adev : Adev) (node : KfdNode) : Nat :=
  let id : Int := match node with | some xcp => xcp | none => -1
  let pages := (adev.memorySize id).toNat / 2 ^ 17
  let pages := min (max pages (2 ^ 9)) (2 ^ 18)
  rounddownPowOfTwo pages

/-- `min_pages` of `svm_range_set_max_pages`. -/
def Adev.minPages (adev : Adev) : Nat :=
  adev.nodes.foldl (fun minPages node => minNotZero minPages (adev.pages node)) 0

section Updates
variable {ι : Type*} [DecidableEq ι]

/-- One access of the loop of `svm_range_set_max_pages` to `max_svm_range_pages`, by device `i`. -/
def setMaxPagesStep (devices : ι → Adev) : Cas ι Nat → ι → Cas ι Nat :=
  Cas.step fun i maxPages => minNotZero maxPages (devices i).minPages

/-- The accesses of the devices, in the order of `sched`. -/
def svmRangeSetMaxPages (devices : ι → Adev) (sched : List ι) : Cas ι Nat :=
  run (setMaxPagesStep devices) (Cas.init 0) sched

end Updates

/-! ## Splitting -/

def alignDown64 (x a : UInt64) : UInt64 :=
  x &&& ~~~(a - 1)

def splitEnd (maxPages start last : UInt64) : UInt64 :=
  let l := alignDown64 (start + maxPages) maxPages - 1
  if last < l then last else l

/-- The loop of `svm_range_split_new` with its pages, in 64 bits. `newOk` tells which allocations
succeed. It is `none` when `rounds` do not suffice. -/
def svmRangeSplitNew64 (newOk : Nat → Bool) (maxPages last : UInt64) :
    Nat → Nat → UInt64 → Option (List (UInt64 × UInt64) × Option Errno)
  | 0, _, _ => none
  | rounds + 1, n, start =>
    if last < start then some ([], none)
    else
      let l := splitEnd maxPages start last
      if newOk n = false then some ([], some .enomem)
      else
        (svmRangeSplitNew64 newOk maxPages last rounds (n + 1) (l + 1)).map fun r =>
          ((start, l) :: r.1, r.2)

/-! ## The minimum -/

/-- The least of the numbers that are not 0, or 0 if all are. -/
structure IsMinNotZero (m : Nat) (xs : List Nat) : Prop where
  le : ∀ x ∈ xs, x ≠ 0 → m ≤ x
  mem : m ≠ 0 → m ∈ xs
  ne_zero : (∃ x ∈ xs, x ≠ 0) → m ≠ 0

theorem IsMinNotZero.nil : IsMinNotZero 0 [] :=
  ⟨fun _ h => absurd h not_mem_nil, fun h => absurd rfl h,
    fun ⟨_, h, _⟩ => absurd h not_mem_nil⟩

theorem IsMinNotZero.concat {m x : Nat} {xs : List Nat} (h : IsMinNotZero m xs) :
    IsMinNotZero (minNotZero m x) (xs ++ [x]) := by
  have hzero : m = 0 → ∀ y ∈ xs, y = 0 := fun hm y hy => by
    by_contra hne
    exact h.ne_zero ⟨y, hy, hne⟩ hm
  have hmem : m ≠ 0 → m ∈ xs ++ [x] := fun hne => mem_append_left _ (h.mem hne)
  have hlast : x ∈ xs ++ [x] := mem_append_right _ mem_cons_self
  have hle : ∀ y ∈ xs ++ [x], y ≠ 0 → y = x ∨ (m ≠ 0 ∧ m ≤ y) := by
    intro y hy hne
    rcases mem_append.mp hy with hy | hy
    · exact .inr ⟨h.ne_zero ⟨y, hy, hne⟩, h.le y hy hne⟩
    · exact .inl (mem_singleton.mp hy)
  unfold minNotZero
  by_cases hm : m = 0
  · rw [if_pos hm]
    refine ⟨fun y hy hne => ?_, fun _ => hlast, fun ⟨y, hy, hne⟩ => ?_⟩
    · rcases hle y hy hne with rfl | ⟨hne, -⟩
      · exact le_refl _
      · exact absurd hm hne
    · rcases hle y hy hne with rfl | ⟨hne, -⟩
      · exact hne
      · exact absurd hm hne
  · rw [if_neg hm]
    by_cases hx : x = 0
    · rw [if_pos hx]
      refine ⟨fun y hy hne => ?_, hmem, fun _ => hm⟩
      rcases hle y hy hne with rfl | ⟨-, hle⟩
      · exact absurd hx hne
      · exact hle
    · rw [if_neg hx]
      refine ⟨fun y hy hne => ?_, fun _ => ?_, fun _ => by omega⟩
      · rcases hle y hy hne with rfl | ⟨-, hle⟩
        · exact min_le_right ..
        · exact (min_le_left ..).trans hle
      · rcases le_total m x with hmx | hmx
        · rw [min_eq_left hmx]
          exact hmem hm
        · rw [min_eq_right hmx]
          exact hlast

theorem IsMinNotZero.foldl {α : Type*} (f : α → Nat) (xs : List α) {m : Nat} {ys : List Nat}
    (h : IsMinNotZero m ys) :
    IsMinNotZero (xs.foldl (fun m x => minNotZero m (f x)) m) (ys ++ xs.map f) := by
  induction xs generalizing m ys with
  | nil => rwa [map_nil, append_nil]
  | cons x xs ih =>
    rw [map_cons, append_cons]
    exact ih h.concat

/-- A power of two from `2 ^ 9` to `2 ^ 18`. -/
def IsRangeSize (n : Nat) : Prop :=
  ∃ k, 9 ≤ k ∧ k ≤ 18 ∧ n = 2 ^ k

theorem IsRangeSize.ne_zero {n : Nat} (h : IsRangeSize n) : n ≠ 0 := by
  obtain ⟨k, -, -, rfl⟩ := h
  exact (Nat.two_pow_pos k).ne'

theorem Adev.pages_isRangeSize (adev : Adev) (node : KfdNode) : IsRangeSize (adev.pages node) := by
  unfold Adev.pages rounddownPowOfTwo
  dsimp only
  generalize (adev.memorySize _).toNat / 2 ^ 17 = pages
  have hne : min (max pages (2 ^ 9)) (2 ^ 18) ≠ 0 := by omega
  refine ⟨_, (Nat.le_log2 hne).mpr (by omega), ?_, rfl⟩
  exact Nat.le_of_lt_succ ((Nat.log2_lt hne).mpr (by omega))

theorem Adev.minPages_min (adev : Adev) : IsMinNotZero adev.minPages (adev.nodes.map adev.pages) :=
  IsMinNotZero.nil.foldl adev.pages adev.nodes

section Shared
variable {ι : Type*} [DecidableEq ι] {devices : ι → Adev}

/-- `max_svm_range_pages` is the least number of the nodes of the devices that have updated it. -/
structure SharedMinimum (devices : ι → Adev) (s : Cas ι Nat) : Prop where
  le : ∀ i, s.pc i = .done → ∀ node ∈ (devices i).nodes, s.cell ≤ (devices i).pages node
  attained : ∀ i, s.pc i = .done → (devices i).nodes ≠ [] →
    ∃ j, s.pc j = .done ∧ ∃ node ∈ (devices j).nodes, s.cell = (devices j).pages node
  rangeSize : ∀ i, s.pc i = .done → (devices i).nodes ≠ [] → IsRangeSize s.cell

theorem sharedMinimum_run (devices : ι → Adev) (sched : List ι) :
    SharedMinimum devices (svmRangeSetMaxPages devices sched) := by
  obtain ⟨order, horder⟩ :=
    Cas.run_linear (fun i maxPages => minNotZero maxPages (devices i).minPages) 0 sched
  change Cas.Linear _ 0 (svmRangeSetMaxPages devices sched) order at horder
  have hmin : IsMinNotZero (svmRangeSetMaxPages devices sched).cell
      (order.map fun i => (devices i).minPages) := by
    rw [horder.cell_eq]
    exact IsMinNotZero.nil.foldl _ order
  have hnonzero : ∀ i, ∀ node ∈ (devices i).nodes, (devices i).minPages ≠ 0 := fun i node hnode =>
    (devices i).minPages_min.ne_zero
      ⟨_, mem_map_of_mem hnode, ((devices i).pages_isRangeSize node).ne_zero⟩
  have hattained : ∀ i, (svmRangeSetMaxPages devices sched).pc i = .done →
      (devices i).nodes ≠ [] → ∃ j, (svmRangeSetMaxPages devices sched).pc j = .done ∧
        ∃ node ∈ (devices j).nodes,
          (svmRangeSetMaxPages devices sched).cell = (devices j).pages node := by
    intro i hi hnodes
    obtain ⟨node, hnode⟩ := exists_mem_of_ne_nil _ hnodes
    have hcell := hmin.ne_zero
      ⟨_, mem_map_of_mem ((horder.done i).mpr hi), hnonzero i node hnode⟩
    obtain ⟨j, hj, hjcell⟩ := mem_map.mp (hmin.mem hcell)
    obtain ⟨node', hnode', hpages⟩ :=
      mem_map.mp ((devices j).minPages_min.mem (by rw [hjcell]; exact hcell))
    exact ⟨j, (horder.done j).mp hj, node', hnode', (hpages.trans hjcell).symm⟩
  refine ⟨fun i hi node hnode => ?_, hattained, fun i hi hnodes => ?_⟩
  · exact (hmin.le _ (mem_map_of_mem ((horder.done i).mpr hi)) (hnonzero i node hnode)).trans
      ((devices i).minPages_min.le _ (mem_map_of_mem hnode)
        ((devices i).pages_isRangeSize node).ne_zero)
  · obtain ⟨j, -, node, -, hcell⟩ := hattained i hi hnodes
    rw [hcell]
    exact (devices j).pages_isRangeSize node

end Shared

/-! ## The ranges -/

def Consecutive : Nat → Nat → List (Nat × Nat) → Prop
  | first, last, [] => first = last + 1
  | first, last, (start, stop) :: ranges =>
    start = first ∧ start ≤ stop ∧ stop ≤ last ∧ Consecutive (stop + 1) last ranges

theorem Consecutive.covers {first last : Nat} {ranges : List (Nat × Nat)}
    (h : Consecutive first last ranges) (page : Nat) :
    (∃ r ∈ ranges, r.1 ≤ page ∧ page ≤ r.2) ↔ first ≤ page ∧ page ≤ last := by
  induction ranges generalizing first with
  | nil =>
    have hend : first = last + 1 := h
    exact iff_of_false (fun ⟨_, hr, _⟩ => absurd hr not_mem_nil) (by omega)
  | cons r ranges ih =>
    obtain ⟨rfl, hle, hlast, hrest⟩ := h
    simp only [mem_cons, exists_eq_or_imp, ih hrest]
    omega

theorem Consecutive.apart {first last : Nat} {ranges : List (Nat × Nat)}
    (h : Consecutive first last ranges) : ranges.Pairwise fun r r' => r.2 < r'.1 := by
  have hge : ∀ {first : Nat} {ranges : List (Nat × Nat)}, Consecutive first last ranges →
      ∀ r ∈ ranges, first ≤ r.1 := by
    intro first ranges
    induction ranges generalizing first with
    | nil => exact fun _ r hr => absurd hr not_mem_nil
    | cons r ranges ih =>
      rintro ⟨rfl, hle, -, hrest⟩ r' hr'
      rcases mem_cons.mp hr' with rfl | hr'
      · exact le_refl _
      · exact (by omega : r.1 ≤ r.2 + 1).trans (ih hrest r' hr')
  induction ranges generalizing first with
  | nil => exact .nil
  | cons r ranges ih =>
    obtain ⟨-, -, -, hrest⟩ := h
    exact .cons (fun r' hr' => hge hrest r' hr') (ih hrest)

def bounds (ranges : List (UInt64 × UInt64)) : List (Nat × Nat) :=
  ranges.map fun r => (r.1.toNat, r.2.toNat)

/-- The ranges follow each other and have the pages from `start` to `last`, each of them once, and
none of them crosses a multiple of `maxPages`. -/
structure Splits (maxPages start last : Nat) (ranges : List (Nat × Nat)) : Prop where
  consecutive : Consecutive start last ranges
  covers : ∀ page, (∃ r ∈ ranges, r.1 ≤ page ∧ page ≤ r.2) ↔ start ≤ page ∧ page ≤ last
  apart : ranges.Pairwise fun r r' => r.2 < r'.1
  inside : ∀ r ∈ ranges, r.1 / maxPages = r.2 / maxPages

/-- The loop ends. Without an error, and there is none when every allocation succeeds, its ranges
split the interval. -/
def SplitRight (maxPages : Nat) (start last : UInt64) : Prop :=
  ∀ newOk, ∃ rounds ranges err,
    svmRangeSplitNew64 newOk (UInt64.ofNat maxPages) last rounds 0 start = some (ranges, err) ∧
      ((∀ n, newOk n = true) → err = none) ∧
      (err = none → Splits maxPages start.toNat last.toNat (bounds ranges))

section Split
variable {k : Nat} {newOk : Nat → Bool} {start last maxPages : UInt64}

theorem alignDown64_toNat (hk : k < 64) (x : UInt64) :
    (alignDown64 x (UInt64.ofNat (2 ^ k))).toNat = x.toNat / 2 ^ k * 2 ^ k := by
  have hpow : 2 ^ k < 2 ^ 64 := Nat.pow_lt_pow_right (by decide) hk
  have hpos := Nat.two_pow_pos k
  have hmask : (~~~(UInt64.ofNat (2 ^ k) - 1)).toNat = 2 ^ 64 - (2 ^ k - 1 + 1) := by
    have hle : (1 : UInt64) ≤ UInt64.ofNat (2 ^ k) := by
      rw [UInt64.le_iff_toNat_le, UInt64.toNat_ofNat_of_lt' hpow]
      exact hpos
    rw [UInt64.toNat_not, UInt64.toNat_sub_of_le _ _ hle, UInt64.toNat_ofNat_of_lt' hpow]
    change 2 ^ 64 - 1 - (2 ^ k - 1) = _
    omega
  refine Nat.eq_of_testBit_eq fun i => ?_
  rw [alignDown64, UInt64.toNat_and, hmask, Nat.testBit_and,
    Nat.testBit_two_pow_sub_succ (by omega), Nat.testBit_two_pow_sub_one, Nat.testBit_mul_two_pow,
    Nat.testBit_div_two_pow]
  by_cases hlow : k ≤ i
  · rw [Nat.sub_add_cancel hlow]
    by_cases hhigh : i < 64
    · simp [hlow, hhigh]
    · have hbit : x.toNat.testBit i = false :=
        Nat.testBit_lt_two_pow (x.toNat_lt.trans_le (Nat.pow_le_pow_right (by decide) (by omega)))
      simp [hlow, hbit]
  · simp [hlow, Nat.lt_of_not_le hlow]

theorem splitEnd_toNat (hk : k ≤ 18) :
    (splitEnd (UInt64.ofNat (2 ^ k)) start last).toNat =
      min last.toNat (alignDown (start.toNat + 2 ^ k) (2 ^ k) - 1) := by
  have hpow : 2 ^ k < 2 ^ 64 := Nat.pow_lt_pow_right (by decide) (by omega)
  have hpos := Nat.two_pow_pos k
  have hstart := start.toNat_lt
  have hlast := last.toNat_lt
  have hend : (alignDown64 (start + UInt64.ofNat (2 ^ k)) (UInt64.ofNat (2 ^ k)) - 1).toNat =
      (start.toNat / 2 ^ k + 1) * 2 ^ k - 1 := by
    have hdiv := Nat.div_add_mod start.toNat (2 ^ k)
    have hmod := Nat.mod_lt start.toNat hpos
    have hblocks : 2 ^ 64 = 2 ^ (64 - k) * 2 ^ k := by
      rw [← Nat.pow_add]
      congr 1
      omega
    have hblock : start.toNat / 2 ^ k < 2 ^ (64 - k) := by
      rw [Nat.div_lt_iff_lt_mul hpos, ← hblocks]
      exact hstart
    have hle : (start.toNat / 2 ^ k + 1) * 2 ^ k ≤ 2 ^ 64 := by
      rw [hblocks]
      exact Nat.mul_le_mul_right _ hblock
    have hge : 2 ^ k ≤ (start.toNat / 2 ^ k + 1) * 2 ^ k :=
      Nat.le_mul_of_pos_left _ (Nat.succ_pos _)
    rw [UInt64.toNat_sub, alignDown64_toNat (by omega), UInt64.toNat_add,
      UInt64.toNat_ofNat_of_lt' hpow]
    have hexpand : (start.toNat / 2 ^ k + 1) * 2 ^ k = 2 ^ k * (start.toNat / 2 ^ k) + 2 ^ k := by
      rw [add_mul, one_mul, mul_comm]
    change (2 ^ 64 - 1 + _) % 2 ^ 64 = _
    by_cases hwrap : start.toNat + 2 ^ k < 2 ^ 64
    · rw [Nat.mod_eq_of_lt hwrap, Nat.add_div_right _ hpos]
      change (2 ^ 64 - 1 + (start.toNat / 2 ^ k + 1) * 2 ^ k) % 2 ^ 64 = _
      omega
    · -- the sum wraps to less than one block
      have hzero : (start.toNat + 2 ^ k) % 2 ^ 64 / 2 ^ k = 0 := Nat.div_eq_of_lt (by omega)
      rw [hzero, zero_mul]
      have hlastBlock : (start.toNat / 2 ^ k + 1) * 2 ^ k = 2 ^ 64 := by
        have hlt : 2 ^ (64 - k) - 1 ≤ start.toNat / 2 ^ k := by
          rw [Nat.le_div_iff_mul_le hpos, Nat.sub_mul, ← hblocks, one_mul]
          omega
        have heq : start.toNat / 2 ^ k + 1 = 2 ^ (64 - k) :=
          le_antisymm hblock (Nat.sub_le_iff_le_add.mp hlt)
        rw [heq, hblocks]
      omega
  have halign : alignDown (start.toNat + 2 ^ k) (2 ^ k) = (start.toNat / 2 ^ k + 1) * 2 ^ k := by
    rw [alignDown, Nat.add_div_right _ hpos]
  rw [halign, ← hend]
  unfold splitEnd
  dsimp only
  split
  · next hlt => exact (min_eq_left (UInt64.lt_iff_toNat_lt.mp hlt).le).symm
  · next hge =>
    exact (min_eq_right (Nat.le_of_not_lt fun h => hge (UInt64.lt_iff_toNat_lt.mpr h))).symm

theorem splitEnd_spec (hk : k ≤ 18) (hle : start.toNat ≤ last.toNat) :
    start.toNat ≤ (splitEnd (UInt64.ofNat (2 ^ k)) start last).toNat ∧
      (splitEnd (UInt64.ofNat (2 ^ k)) start last).toNat ≤ last.toNat ∧
      start.toNat / 2 ^ k = (splitEnd (UInt64.ofNat (2 ^ k)) start last).toNat / 2 ^ k := by
  have hpos := Nat.two_pow_pos k
  rw [splitEnd_toNat hk, alignDown, Nat.add_div_right _ hpos]
  have hdiv := Nat.div_add_mod start.toNat (2 ^ k)
  have hmod := Nat.mod_lt start.toNat hpos
  have hexpand : (start.toNat / 2 ^ k + 1) * 2 ^ k = 2 ^ k * (start.toNat / 2 ^ k) + 2 ^ k := by
    rw [Nat.succ_mul, mul_comm]
  refine ⟨by omega, min_le_left .., le_antisymm (Nat.div_le_div_right (by omega)) ?_⟩
  rw [← Nat.lt_succ_iff, Nat.div_lt_iff_lt_mul hpos, Nat.succ_eq_add_one]
  omega

variable (newOk) in
theorem svmRangeSplitNew64_spec (hk : k ≤ 18) (hlast : last.toNat + 1 < 2 ^ 64) {rounds : Nat}
    (hstart : start.toNat ≤ last.toNat + 1) (hrounds : last.toNat + 1 - start.toNat < rounds)
    (n : Nat) :
    ∃ ranges err, svmRangeSplitNew64 newOk (UInt64.ofNat (2 ^ k)) last rounds n start =
        some (ranges, err) ∧
      ((∀ n, newOk n = true) → err = none) ∧
      (err = none → Consecutive start.toNat last.toNat (bounds ranges) ∧
        ∀ r ∈ bounds ranges, r.1 / 2 ^ k = r.2 / 2 ^ k) := by
  induction rounds generalizing start n with
  | zero => exact absurd hrounds (Nat.not_lt_zero _)
  | succ rounds ih =>
    rw [svmRangeSplitNew64]
    by_cases hend : last < start
    · rw [if_pos hend]
      rw [UInt64.lt_iff_toNat_lt] at hend
      exact ⟨[], none, rfl, fun _ => rfl, fun _ => ⟨by show start.toNat = last.toNat + 1; omega,
        fun _ hr => absurd hr not_mem_nil⟩⟩
    · rw [if_neg hend]
      rw [UInt64.lt_iff_toNat_lt] at hend
      obtain ⟨hlo, hhi, hblock⟩ := splitEnd_spec hk (Nat.le_of_not_lt hend)
      dsimp only
      generalize splitEnd (UInt64.ofNat (2 ^ k)) start last = l at hlo hhi hblock ⊢
      have hnext : (l + 1).toNat = l.toNat + 1 := by
        rw [UInt64.toNat_add]
        exact Nat.mod_eq_of_lt (by show l.toNat + 1 < 2 ^ 64; omega)
      cases hnew : newOk n with
      | false =>
        rw [if_pos rfl]
        refine ⟨[], _, rfl, fun hall => ?_, nofun⟩
        rw [hall n] at hnew
        cases hnew
      | true =>
        rw [if_neg nofun]
        have hle : (l + 1).toNat ≤ last.toNat + 1 := by omega
        obtain ⟨ranges, err, hloop, hok, hsplits⟩ := ih hle (by omega) (n + 1)
        rw [hloop]
        refine ⟨(start, l) :: ranges, err, rfl, hok, fun herr => ?_⟩
        obtain ⟨hconsecutive, hinside⟩ := hsplits herr
        rw [hnext] at hconsecutive
        exact ⟨⟨rfl, hlo, hhi, hconsecutive⟩, forall_mem_cons.mpr ⟨hblock, hinside⟩⟩

theorem svmRangeSplitNew64_endless (hlast : ¬last.toNat + 1 < 2 ^ 64) (rounds n : Nat)
    (start : UInt64) :
    svmRangeSplitNew64 (fun _ => true) maxPages last rounds n start = none := by
  induction rounds generalizing n start with
  | zero => rfl
  | succ rounds ih =>
    have hnot : ¬last < start := by
      have hlt := start.toNat_lt
      rw [UInt64.lt_iff_toNat_lt]
      omega
    rw [svmRangeSplitNew64, if_neg hnot]
    dsimp only
    rw [if_neg nofun, ih]
    rfl

theorem splitRight_iff (hk : k ≤ 18) (hle : start ≤ last) :
    SplitRight (2 ^ k) start last ↔ last.toNat + 1 < 2 ^ 64 := by
  have hle := UInt64.le_iff_toNat_le.mp hle
  constructor
  · intro h
    by_contra hlast
    obtain ⟨rounds, ranges, err, hloop, -⟩ := h fun _ => true
    rw [svmRangeSplitNew64_endless hlast] at hloop
    cases hloop
  · intro hlast newOk
    obtain ⟨ranges, err, hloop, hok, hsplits⟩ := svmRangeSplitNew64_spec newOk hk hlast
      (hle.trans (Nat.le_succ _)) (Nat.lt_succ_self _) 0
    refine ⟨_, ranges, err, hloop, hok, fun herr => ?_⟩
    obtain ⟨hconsecutive, hinside⟩ := hsplits herr
    exact ⟨hconsecutive, hconsecutive.covers, hconsecutive.apart, hinside⟩

end Split

/-! ## Both together -/

section Both
variable {ι : Type*} [DecidableEq ι]

/-- At any time the largest size is the least one of the nodes of the devices that have updated it,
and, once there is one, a power of two from `2 ^ 9` to `2 ^ 18`. With that size an interval is split
as it should be exactly when its last page is not the last number of 64 bits. -/
theorem maxPages_split_iff (devices : ι → Adev) (sched : List ι) (start last : UInt64)
    (hle : start ≤ last) :
    SharedMinimum devices (svmRangeSetMaxPages devices sched) ∧
      ∀ i, (svmRangeSetMaxPages devices sched).pc i = .done → (devices i).nodes ≠ [] →
        (SplitRight (svmRangeSetMaxPages devices sched).cell start last ↔
          last.toNat + 1 < 2 ^ 64) := by
  have hshared := sharedMinimum_run devices sched
  refine ⟨hshared, fun i hi hnodes => ?_⟩
  obtain ⟨k, -, hk, hcell⟩ := hshared.rangeSize i hi hnodes
  rw [hcell]
  exact splitRight_iff hk hle

end Both

def exDevices (i : Bool) : Adev :=
  { nodes := [none], memorySize := fun _ => if i then 2 ^ 27 else 2 ^ 30 }

/-- Both read 0, the second one writes first, and the first one has to start again. -/
def exUpdates : List Bool :=
  [true, false, false, true, true, true]

theorem maxPages_split_exDevices :
    SplitRight (svmRangeSetMaxPages exDevices exUpdates).cell 512 2047 :=
  ((maxPages_split_iff exDevices exUpdates 512 2047 (by decide)).2 true (by decide)
    (by decide)).mpr (by decide)

/-- `svm_range_is_valid` accepts an interval of a checkpoint whose last page is the last number of
64 bits, since it only looks at 52 bits of a page number. -/
theorem maxPages_split_broken :
    (svmRangeSetMaxPages exDevices exUpdates).pc true = .done ∧
      svmRangeIsValid exOneVma [] 0xfff0000000000001 0xfffffffffffff = some none ∧
      ¬SplitRight (svmRangeSetMaxPages exDevices exUpdates).cell 0xfff0000000000001
        (0xfff0000000000001 + 0xfffffffffffff - 1) := by
  refine ⟨by decide, by decide +kernel, fun h => ?_⟩
  obtain ⟨rounds, ranges, err, hloop, -⟩ := h fun _ => true
  rw [svmRangeSplitNew64_endless (by decide)] at hloop
  cases hloop

end Amdkfd.Svm

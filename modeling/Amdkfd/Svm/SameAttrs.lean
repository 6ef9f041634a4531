import Amdkfd.Lib.Assign
import Amdkfd.Svm.Criu

/-!
# Attributes that are the same

`svm_range_is_same_attrs` tells `svm_range_add` that a list of attributes has nothing to change in
a range. It has to agree with `svm_range_apply_attrs`, which goes through the list from the front to
the back. An attribute names settings of the range: a location, the access of a GPU, flag bits or
the granularity.
-/

namespace Amdkfd.Svm

open Lib List

/-! ## Settings -/

/-- A setting of a range. -/
inductive Setting
  | preferredLoc
  | prefetchLoc
  | access (gpuId : UInt32)
  | flag (bit : Nat)
  | granularity
  deriving DecidableEq, Repr

inductive SettingValue
  | location (loc : UInt32)
  | access (type : AttrType)
  | flag (set : Bool)
  | granularity (granularity : Nat)
  deriving DecidableEq, Repr

def Attribute.Names (attr : Attribute) : Setting → Prop
  | .preferredLoc => attr.type = .preferredLoc
  | .prefetchLoc => attr.type = .prefetchLoc
  | .access gpuId =>
    (attr.type = .access ∨ attr.type = .accessInPlace ∨ attr.type = .noAccess) ∧ attr.value = gpuId
  | .flag bit =>
    (attr.type = .setFlags ∨ attr.type = .clrFlags) ∧ attr.value.toBitVec.getLsbD bit = true
  | .granularity => attr.type = .granularity

def Attribute.gives (attr : Attribute) : Setting → SettingValue
  | .preferredLoc => .location attr.value
  | .prefetchLoc => .location attr.value
  | .access _ => .access attr.type
  | .flag _ => .flag (attr.type = .setFlags)
  | .granularity => .granularity (min attr.value.toNat 0x3f)

def Attrs.setting (p : Process) (a : Attrs) : Setting → SettingValue
  | .preferredLoc => .location a.preferredLoc
  | .prefetchLoc => .location a.prefetchLoc
  | .access gpuId => .access ((gpuidxFromGpuid p gpuId).elim .noAccess a.accessType)
  | .flag bit => .flag (a.flags.getLsbD bit)
  | .granularity => .granularity a.granularity

/-- No setting is named twice: no location, no GPU, no flag bit and not the granularity. -/
def DistinctSettings (attrs : List Attribute) : Prop :=
  Distinct Attribute.Names attrs

/-! ## One attribute -/

section Attribute
variable {p : Process} {a : Attrs} {attr : Attribute}

variable {i : Nat} {k : Setting}

theorem gpuidxFromGpuid_some {gpuId : UInt32} (h : gpuidxFromGpuid p gpuId = some i) :
    p.gpuIds[i]? = some gpuId := by
  obtain ⟨hlt, heq, -⟩ := findIdx?_eq_some_iff_getElem.mp h
  rw [getElem?_eq_getElem hlt, eq_of_beq heq]

theorem gpuidxFromGpuid_inj {g g' : UInt32} (h : gpuidxFromGpuid p g = some i)
    (h' : gpuidxFromGpuid p g' = some i) : g = g' :=
  Option.some.inj ((gpuidxFromGpuid_some h).symm.trans (gpuidxFromGpuid_some h'))

def AttrType.OfAccess (type : AttrType) : Prop :=
  type = .access ∨ type = .accessInPlace ∨ type = .noAccess

theorem checkAttr_gpu (hcheck : checkAttr p attr = none) (htype : attr.type.OfAccess) :
    ∃ i, gpuidxFromGpuid p attr.value = some i := by
  unfold checkAttr at hcheck
  cases hgpu : gpuidxFromGpuid p attr.value with
  | some i => exact ⟨i, rfl⟩
  | none =>
    rcases htype with htype | htype | htype
    · simp [htype, hgpu] at hcheck
    · simp [htype, hgpu] at hcheck
    · simp [htype, hgpu] at hcheck

theorem accessType_setAccess_self {type : AttrType} (htype : type.OfAccess) :
    (a.setAccess i type).accessType i = type := by
  unfold Attrs.accessType
  rcases htype with rfl | rfl | rfl
  · simp [Attrs.setAccess]
  · simp [Attrs.setAccess]
  · simp [Attrs.setAccess]

theorem accessType_setAccess_of_ne {i j : Nat} (hne : j ≠ i) (type : AttrType) :
    (a.setAccess i type).accessType j = a.accessType j := by
  have hout : ¬(i ≤ j ∧ j < i + 1) := by omega
  unfold Attrs.accessType Attrs.setAccess
  split
  · simp only [mem_bitmapSet, mem_bitmapClear, hout, or_false, not_false_eq_true, and_true]
  · simp only [mem_bitmapSet, mem_bitmapClear, hout, or_false, not_false_eq_true, and_true]
  · simp only [mem_bitmapClear, hout, not_false_eq_true, and_true]

theorem applyAttr_access (htype : attr.type.OfAccess)
    (hgpu : gpuidxFromGpuid p attr.value = some i) :
    applyAttr p a attr = a.setAccess i attr.type := by
  unfold applyAttr
  rcases htype with htype | htype | htype
  · simp only [htype, hgpu]
  · simp only [htype, hgpu]
  · simp only [htype, hgpu]

theorem setting_setAccess {type : AttrType} (hk : ∀ g, k ≠ .access g) :
    (a.setAccess i type).setting p k = a.setting p k := by
  unfold Attrs.setAccess
  cases k with
  | access gpuId => exact absurd rfl (hk gpuId)
  | _ => split <;> rfl

theorem getLsbD_setFlags (bit : Nat) : (a.flags ||| attr.value.toBitVec).getLsbD bit =
    (a.flags.getLsbD bit || attr.value.toBitVec.getLsbD bit) :=
  BitVec.getLsbD_or

theorem getLsbD_clrFlags (bit : Nat) : (a.flags &&& ~~~attr.value.toBitVec).getLsbD bit =
    (a.flags.getLsbD bit && !attr.value.toBitVec.getLsbD bit) := by
  rw [BitVec.getLsbD_and, BitVec.getLsbD_not]
  by_cases hlt : bit < 32
  · rw [decide_eq_true hlt, Bool.true_and]
  · rw [BitVec.getLsbD_of_ge _ _ (Nat.le_of_not_lt hlt), Bool.false_and, Bool.false_and]

section
variable (hcheck : checkAttr p attr = none)
include hcheck

theorem applyAttr_access_frame (haccess : attr.type.OfAccess) (hno : ¬attr.Names k) :
    (applyAttr p a attr).setting p k = a.setting p k := by
  obtain ⟨i, hi⟩ := checkAttr_gpu hcheck haccess
  rw [applyAttr_access haccess hi]
  by_cases hk : ∃ g, k = .access g
  · obtain ⟨g, rfl⟩ := hk
    have hne : attr.value ≠ g := fun heq => hno ⟨haccess, heq⟩
    show SettingValue.access _ = SettingValue.access _
    congr 1
    cases hg : gpuidxFromGpuid p g with
    | none => rfl
    | some j =>
      refine accessType_setAccess_of_ne (fun hji => hne ?_) attr.type
      exact gpuidxFromGpuid_inj hi (hji ▸ hg)
  · exact setting_setAccess fun g hg => hk ⟨g, hg⟩

theorem applyAttr_frame (hno : ¬attr.Names k) :
    (applyAttr p a attr).setting p k = a.setting p k := by
  by_cases haccess : attr.type.OfAccess
  · exact applyAttr_access_frame hcheck haccess hno
  unfold applyAttr
  cases htype : attr.type with
  | access => exact absurd (.inl htype) haccess
  | accessInPlace => exact absurd (.inr (.inl htype)) haccess
  | noAccess => exact absurd (.inr (.inr htype)) haccess
  | unknown type => rfl
  | preferredLoc =>
    cases k with
    | preferredLoc => exact absurd htype hno
    | _ => rfl
  | prefetchLoc =>
    cases k with
    | prefetchLoc => exact absurd htype hno
    | _ => rfl
  | granularity =>
    cases k with
    | granularity => exact absurd htype hno
    | _ => rfl
  | setFlags =>
    cases k with
    | flag bit =>
      have hclear : attr.value.toBitVec.getLsbD bit = false :=
        Bool.eq_false_iff.mpr fun h => hno ⟨.inl htype, h⟩
      show SettingValue.flag _ = SettingValue.flag _
      rw [getLsbD_setFlags, hclear, Bool.or_false]
    | _ => rfl
  | clrFlags =>
    cases k with
    | flag bit =>
      have hclear : attr.value.toBitVec.getLsbD bit = false :=
        Bool.eq_false_iff.mpr fun h => hno ⟨.inr htype, h⟩
      show SettingValue.flag _ = SettingValue.flag _
      rw [getLsbD_clrFlags, hclear, Bool.not_false, Bool.and_true]
    | _ => rfl

theorem applyAttr_effect (hnames : attr.Names k) :
    (applyAttr p a attr).setting p k = attr.gives k := by
  cases k with
  | preferredLoc =>
    have htype : attr.type = .preferredLoc := hnames
    unfold applyAttr
    rw [htype]
    rfl
  | prefetchLoc =>
    have htype : attr.type = .prefetchLoc := hnames
    unfold applyAttr
    rw [htype]
    rfl
  | granularity =>
    have htype : attr.type = .granularity := hnames
    unfold applyAttr
    rw [htype]
    rfl
  | access gpuId =>
    obtain ⟨htype, rfl⟩ := hnames
    obtain ⟨i, hi⟩ := checkAttr_gpu hcheck htype
    rw [applyAttr_access htype hi]
    show SettingValue.access _ = SettingValue.access _
    rw [hi]
    exact congrArg _ (accessType_setAccess_self htype)
  | flag bit =>
    obtain ⟨htype, hbit⟩ := hnames
    show SettingValue.flag _ = SettingValue.flag _
    unfold applyAttr
    rcases htype with htype | htype
    · rw [htype]
      dsimp only
      rw [getLsbD_setFlags, hbit, Bool.or_true, decide_eq_true rfl]
    · rw [htype]
      dsimp only
      rw [getLsbD_clrFlags, hbit, Bool.not_true, Bool.and_false, decide_eq_false nofun]

end

theorem applyAttr_assigns (p : Process) : Assigns (applyAttr p) (Attrs.setting p) Attribute.Names
    Attribute.gives fun attr => checkAttr p attr = none where
  frame _ _ _ hcheck hno := applyAttr_frame hcheck hno
  effect _ _ _ hcheck hnames := applyAttr_effect hcheck hnames

/-! ## Attributes that differ -/

theorem exists_bit_of_and_ne {a b : BitVec 32} (h : ¬a &&& b = b) :
    ∃ i, b.getLsbD i = true ∧ a.getLsbD i = false := by
  by_contra hno
  simp only [not_exists, not_and, Bool.not_eq_false] at hno
  refine h (BitVec.eq_of_getLsbD_eq fun i _ => ?_)
  rw [BitVec.getLsbD_and]
  cases hb : b.getLsbD i with
  | false => exact Bool.and_false _
  | true => rw [hno i hb]; rfl

theorem exists_bit_of_and_ne_zero {a b : BitVec 32} (h : ¬a &&& b = 0) :
    ∃ i, b.getLsbD i = true ∧ a.getLsbD i = true := by
  obtain ⟨i, hi⟩ := word_ne_zero_iff.mp h
  rw [BitVec.getLsbD_and, Bool.and_eq_true] at hi
  exact ⟨i, hi.2, hi.1⟩

theorem exists_differs (hcheck : checkAttr p attr = none) (hprefetch : attr.type ≠ .prefetchLoc)
    (hgranularity : attr.type = .granularity → attr.value.toNat ≤ 0x3f)
    (h : isSameAttr p a attr = false) :
    ∃ k, attr.Names k ∧ a.setting p k ≠ attr.gives k := by
  have haccess (htype : attr.type.OfAccess) (i : Nat) (hi : gpuidxFromGpuid p attr.value = some i)
      (hne : a.accessType i ≠ attr.type) : ∃ k, attr.Names k ∧ a.setting p k ≠ attr.gives k := by
    refine ⟨.access attr.value, ⟨htype, rfl⟩, fun heq => hne ?_⟩
    have heq : SettingValue.access _ = SettingValue.access _ := heq
    rw [hi] at heq
    exact SettingValue.access.inj heq
  unfold isSameAttr at h
  cases htype : attr.type with
  | preferredLoc =>
    simp only [htype, beq_eq_false_iff_ne, ne_eq] at h
    exact ⟨.preferredLoc, htype, fun heq => h (SettingValue.location.inj heq)⟩
  | prefetchLoc => exact absurd htype hprefetch
  | access =>
    have hof : attr.type.OfAccess := .inl htype
    obtain ⟨i, hi⟩ := checkAttr_gpu hcheck hof
    have hno : i ∉ a.access := by simpa [htype, hi] using h
    refine haccess hof i hi ?_
    rw [htype, Attrs.accessType, if_neg hno]
    split <;> exact nofun
  | accessInPlace =>
    have hof : attr.type.OfAccess := .inr (.inl htype)
    obtain ⟨i, hi⟩ := checkAttr_gpu hcheck hof
    have hno : i ∉ a.aip := by simpa [htype, hi] using h
    refine haccess hof i hi ?_
    rw [htype, Attrs.accessType, if_neg hno]
    split <;> exact nofun
  | noAccess =>
    have hof : attr.type.OfAccess := .inr (.inr htype)
    obtain ⟨i, hi⟩ := checkAttr_gpu hcheck hof
    have hsome : i ∉ a.access → i ∈ a.aip := by simpa [htype, hi] using h
    refine haccess hof i hi ?_
    rw [htype, Attrs.accessType]
    split
    · exact nofun
    · next hno => rw [if_pos (hsome hno)]; exact nofun
  | setFlags =>
    simp only [htype, beq_eq_false_iff_ne, ne_eq] at h
    obtain ⟨i, hset, hclear⟩ := exists_bit_of_and_ne h
    refine ⟨.flag i, ⟨.inl htype, hset⟩, fun heq => ?_⟩
    have heq := SettingValue.flag.inj heq
    rw [hclear, htype] at heq
    cases heq
  | clrFlags =>
    simp only [htype, beq_eq_false_iff_ne, ne_eq] at h
    obtain ⟨i, hset, hboth⟩ := exists_bit_of_and_ne_zero h
    refine ⟨.flag i, ⟨.inr htype, hset⟩, fun heq => ?_⟩
    have heq := SettingValue.flag.inj heq
    rw [hboth, htype] at heq
    cases heq
  | granularity =>
    simp only [htype, beq_eq_false_iff_ne, ne_eq] at h
    refine ⟨.granularity, htype, fun heq => h ?_⟩
    have heq := SettingValue.granularity.inj heq
    rwa [Nat.min_eq_left (hgranularity htype)] at heq
  | unknown type => simp [htype] at h

end Attribute

/-! ## Lists of attributes -/

/-- When `svm_range_is_same_attrs` accepts a list of attributes, `svm_range_apply_attrs` changes
nothing; when it does not, and the list has no prefetch location, names no setting twice and has no
granularity above `0x3F`, then `svm_range_apply_attrs` changes something. -/
theorem sameAttrs_agrees (p : Process) (a : Attrs) (attrs : List Attribute)
    (hcheck : svmRangeCheckAttr p attrs = none) :
    (svmRangeIsSameAttrs p a attrs = true → applyAttrs p attrs a = a) ∧
      (svmRangeIsSameAttrs p a attrs = false → (∀ attr ∈ attrs, attr.type ≠ .prefetchLoc) →
        DistinctSettings attrs →
        (∀ attr ∈ attrs, attr.type = .granularity → attr.value.toNat ≤ 0x3f) →
        applyAttrs p attrs a ≠ a) := by
  refine ⟨applyAttrs_eq_of_isSameAttrs, fun hdiffers hprefetch hdistinct hgranularity heq => ?_⟩
  have hcheck : ∀ attr ∈ attrs, checkAttr p attr = none := findSome?_eq_none_iff.mp hcheck
  obtain ⟨attr, hmem, hattr⟩ := all_eq_false.mp hdiffers
  obtain ⟨k, hnames, hne⟩ := exists_differs (hcheck attr hmem) (hprefetch attr hmem)
    (hgranularity attr hmem) (Bool.eq_false_iff.mpr hattr)
  have hlast := (applyAttr_assigns p).foldl_distinct hcheck hdistinct hmem hnames a
  change (applyAttrs p attrs a).setting p k = _ at hlast
  rw [heq] at hlast
  exact hne hlast

/-- Access of the one GPU and a granularity of 5: the default granularity is 9. -/
theorem sameAttrs_agrees_exProcess :
    applyAttrs exProcess [⟨.access, 1⟩, ⟨.granularity, 5⟩] (defaultAttrs exProcess) ≠
      defaultAttrs exProcess := by
  refine (sameAttrs_agrees exProcess (defaultAttrs exProcess) _ (by decide)).2 (by decide)
    (by decide) ?_ (by decide)
  refine pairwise_pair.mpr fun k haccess hgranularity => ?_
  cases k <;> simp [Attribute.Names] at haccess hgranularity

end Amdkfd.Svm

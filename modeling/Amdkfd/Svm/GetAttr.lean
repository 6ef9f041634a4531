import Amdkfd.Svm.SameAttrs

/-!
# Reading the attributes of an interval

`svm_range_get_attr` of `kfd_svm.c` goes through the ranges that overlap the interval and merges
their attributes; pages that no range covers do not count. When no range overlaps the interval, the
answer is that for one range with the default attributes.
-/

namespace Amdkfd.Svm

open Lib List Option

/-! ## The answers -/

/-- The value that all locations have, or undefined when they differ. -/
def IsCommonLoc (locs : List UInt32) (loc : UInt32) : Prop :=
  (∀ l ∈ locs, l = loc) ∨ loc = locationUndefined ∧ ∃ l ∈ locs, ∃ l' ∈ locs, l ≠ l'

/-- The type that tells the access of a GPU to all ranges. -/
def accessOfAll (p : Process) (rs : List Attrs) (gpuidx : Nat) : AttrType :=
  if gpuidx ∈ p.bitmapSupported ∧ ∀ r ∈ rs, gpuidx ∈ r.access then .access
  else if gpuidx ∈ p.bitmapSupported ∧ ∀ r ∈ rs, gpuidx ∈ r.aip then .accessInPlace
  else .noAccess

/-- The answer to a question about ranges with these attributes. -/
def Answers (p : Process) (rs : List Attrs) (q answer : Attribute) : Prop :=
  match q.type with
  | .preferredLoc =>
    answer.type = .preferredLoc ∧ IsCommonLoc (rs.map (·.preferredLoc)) answer.value
  | .prefetchLoc =>
    answer.type = .prefetchLoc ∧ IsCommonLoc (rs.map (·.prefetchLoc)) answer.value
  | .access =>
    ∃ i, gpuidxFromGpuid p q.value = some i ∧ answer = ⟨accessOfAll p rs i, q.value⟩
  | .setFlags =>
    answer.type = .setFlags ∧ ∀ bit < 32, answer.value.toBitVec.getLsbD bit = true ↔
      ∀ r ∈ rs, r.flags.getLsbD bit = true
  | .clrFlags =>
    answer.type = .clrFlags ∧ ∀ bit < 32, answer.value.toBitVec.getLsbD bit = true ↔
      ∀ r ∈ rs, r.flags.getLsbD bit = false
  | .granularity =>
    answer.type = .granularity ∧ IsLeast { g | ∃ r ∈ rs, r.granularity = g } answer.value.toNat
  | _ => False

/-- The attributes that the answers are about: those of the ranges that overlap the interval, or
the default attributes when there is none. -/
def overlapping (p : Process) (s : Svms) (start last : Nat) : List Attrs :=
  let nodes := s.tree.filter fun id => start ≤ (s.heap id).itLast ∧ (s.heap id).itStart ≤ last
  if nodes = [] then [defaultAttrs p] else nodes.map fun id => (s.heap id).attrs

def svmIoctlGetAttr (valid : Option Errno) (p : Process) (s : Svms) (start size : Nat)
    (attrs : List Attribute) : Except Errno (List Attribute) :=
  match valid with
  | some e => .error e
  | none => svmRangeGetAttr p s start (start + size - 1) attrs

/-! ## The loop -/

section Loop
variable {p : Process} {attrs : List Attribute} {rs : List Attrs} {g : GetAttr} {a : Attrs}

/-- A location that the loop has so far, for the locations of the ranges that it has seen. -/
structure MergedLoc (locs : List UInt32) (get : Bool) (loc : UInt32) : Prop where
  none : locs = [] → get = true ∧ loc = locationUndefined
  same : get = true → ∀ l ∈ locs, l = loc ∧ l ≠ locationUndefined
  off : get = false → loc = locationUndefined ∧
    (locationUndefined ∈ locs ∨ ∃ l ∈ locs, ∃ l' ∈ locs, l ≠ l')

variable {locs : List UInt32} {get : Bool} {loc : UInt32}

theorem MergedLoc.step (h : MergedLoc locs get loc) (l : UInt32) :
    MergedLoc (locs ++ [l]) (mergeLoc get loc l).1 (mergeLoc get loc l).2 := by
  have hmem {x : UInt32} (hx : x ∈ locs) : x ∈ locs ++ [l] := mem_append_left _ hx
  have hlast : l ∈ locs ++ [l] := mem_append_right _ mem_cons_self
  have hne : locs ++ [l] ≠ [] := by simp
  cases hget : get with
  | false =>
    refine ⟨fun hnil => absurd hnil hne, fun h => absurd h Bool.false_ne_true, fun _ => ?_⟩
    obtain ⟨hloc, hundef | ⟨x, hx, y, hy, hxy⟩⟩ := h.off hget
    · exact ⟨hloc, .inl (hmem hundef)⟩
    · exact ⟨hloc, .inr ⟨x, hmem hx, y, hmem hy, hxy⟩⟩
  | true =>
    simp only [mergeLoc, if_true]
    split
    · next hstop =>
      refine ⟨fun hnil => absurd hnil hne, fun h => absurd h Bool.false_ne_true, fun _ => ⟨rfl, ?_⟩⟩
      rcases hstop with rfl | ⟨hknown, hdiffer⟩
      · exact .inl hlast
      · cases hlocs : locs with
        | nil => exact absurd (h.none hlocs).2 hknown
        | cons x xs =>
          have hx : x ∈ locs := hlocs ▸ mem_cons_self
          rw [← hlocs]
          exact .inr ⟨x, hmem hx, l, hlast, fun heq =>
            hdiffer ((h.same hget x hx).1.symm.trans heq)⟩
    · next hgo =>
      push Not at hgo
      obtain ⟨hknown, hsame⟩ := hgo
      refine ⟨fun hnil => absurd hnil hne, fun _ x hx => ?_,
        fun h => absurd h.symm Bool.false_ne_true⟩
      rcases mem_append.mp hx with hx | hx
      · obtain ⟨rfl, hx⟩ := h.same hget x hx
        exact ⟨hsame hx, hx⟩
      · obtain rfl := mem_singleton.mp hx
        exact ⟨rfl, hknown⟩

theorem MergedLoc.isCommonLoc (h : MergedLoc locs get loc) : IsCommonLoc locs loc := by
  cases hget : get with
  | true => exact .inl fun l hl => (h.same hget l hl).1
  | false =>
    obtain ⟨hloc, hundef | hdiffer⟩ := h.off hget
    · by_cases hall : ∀ l ∈ locs, l = loc
      · exact .inl hall
      · push Not at hall
        obtain ⟨l, hl, hne⟩ := hall
        exact .inr ⟨hloc, l, hl, _, hundef, fun heq => hne (heq.trans hloc.symm)⟩
    · exact .inr ⟨hloc, hdiffer⟩

/-- The locals of `svm_range_get_attr` after the ranges `rs`. -/
structure GetAttr.Merged (p : Process) (attrs : List Attribute) (rs : List Attrs) (g : GetAttr) :
    Prop where
  preferredLoc : (GetAttr.init p attrs).getPreferredLoc = true →
    MergedLoc (rs.map (·.preferredLoc)) g.getPreferredLoc g.location
  prefetchLoc : (GetAttr.init p attrs).getPrefetchLoc = true →
    MergedLoc (rs.map (·.prefetchLoc)) g.getPrefetchLoc g.prefetchLoc
  getAccessible : g.getAccessible = (GetAttr.init p attrs).getAccessible
  getFlags : g.getFlags = (GetAttr.init p attrs).getFlags
  getGranularity : g.getGranularity = (GetAttr.init p attrs).getGranularity
  access : g.getAccessible = true → ∀ i, i ∈ g.access ↔
    i ∈ p.bitmapSupported ∧ ∀ r ∈ rs, i ∈ r.access
  aip : g.getAccessible = true → ∀ i, i ∈ g.aip ↔ i ∈ p.bitmapSupported ∧ ∀ r ∈ rs, i ∈ r.aip
  flagsAnd : g.getFlags = true → ∀ bit < 32, g.flagsAnd.getLsbD bit = true ↔
    ∀ r ∈ rs, r.flags.getLsbD bit = true
  flagsOr : g.getFlags = true → ∀ bit, g.flagsOr.getLsbD bit = true ↔
    ∃ r ∈ rs, r.flags.getLsbD bit = true
  granularity : g.getGranularity = true → rs ≠ [] →
    IsLeast { n | ∃ r ∈ rs, r.granularity = n } g.granularity
  noGranularity : rs = [] → g.granularity = 0xff

theorem GetAttr.Merged.init (p : Process) (attrs : List Attribute) :
    GetAttr.Merged p attrs [] (GetAttr.init p attrs) where
  preferredLoc h := ⟨fun _ => ⟨h, rfl⟩, by simp, fun hoff => absurd (h.symm.trans hoff) (by simp)⟩
  prefetchLoc h := ⟨fun _ => ⟨h, rfl⟩, by simp, fun hoff => absurd (h.symm.trans hoff) (by simp)⟩
  getAccessible := rfl
  getFlags := rfl
  getGranularity := rfl
  access _ i := by simp [GetAttr.init]
  aip _ i := by simp [GetAttr.init]
  flagsAnd _ bit hbit := by
    have hones : (BitVec.allOnes 32).getLsbD bit = true := by
      rw [BitVec.getLsbD_allOnes, decide_eq_true hbit]
    exact iff_of_true hones (by simp)
  flagsOr _ bit := by simp [GetAttr.init]
  granularity _ hnil := absurd rfl hnil
  noGranularity _ := rfl

theorem isLeast_append {n : Nat} (hrs : IsLeast { m | ∃ r ∈ rs, r.granularity = m } n) :
    IsLeast { m | ∃ r ∈ rs ++ [a], r.granularity = m }
      (if a.granularity < n then a.granularity else n) := by
  have hset : { m | ∃ r ∈ rs ++ [a], r.granularity = m } =
      insert a.granularity { m | ∃ r ∈ rs, r.granularity = m } := by
    ext m
    simp [or_and_right, exists_or, or_comm, eq_comm]
  have hmin : (if a.granularity < n then a.granularity else n) = min a.granularity n := by
    rcases Nat.lt_or_ge a.granularity n with hlt | hge
    · rw [if_pos hlt, min_eq_left hlt.le]
    · rw [if_neg hge.not_gt, min_eq_right hge]
  rw [hset, hmin]
  exact hrs.insert a.granularity

theorem GetAttr.Merged.step (h : GetAttr.Merged p attrs rs g) (a : Attrs) :
    GetAttr.Merged p attrs (rs ++ [a]) (g.visit a) where
  preferredLoc hget := by
    rw [map_append]
    exact (h.preferredLoc hget).step a.preferredLoc
  prefetchLoc hget := by
    rw [map_append]
    exact (h.prefetchLoc hget).step a.prefetchLoc
  getAccessible := h.getAccessible
  getFlags := h.getFlags
  getGranularity := h.getGranularity
  access hget i := by
    change g.getAccessible = true at hget
    show i ∈ (if g.getAccessible then g.access ∩ a.access else g.access) ↔ _
    rw [if_pos hget, Finset.mem_inter, h.access hget, and_assoc, forall_mem_append,
      forall_mem_singleton]
  aip hget i := by
    change g.getAccessible = true at hget
    show i ∈ (if g.getAccessible then g.aip ∩ a.aip else g.aip) ↔ _
    rw [if_pos hget, Finset.mem_inter, h.aip hget, and_assoc, forall_mem_append,
      forall_mem_singleton]
  flagsAnd hget bit hbit := by
    change g.getFlags = true at hget
    show (if g.getFlags then g.flagsAnd &&& a.flags else g.flagsAnd).getLsbD bit = true ↔ _
    rw [if_pos hget, BitVec.getLsbD_and, Bool.and_eq_true, h.flagsAnd hget bit hbit,
      forall_mem_append, forall_mem_singleton]
  flagsOr hget bit := by
    change g.getFlags = true at hget
    show (if g.getFlags then g.flagsOr ||| a.flags else g.flagsOr).getLsbD bit = true ↔ _
    rw [if_pos hget, BitVec.getLsbD_or, Bool.or_eq_true, h.flagsOr hget bit]
    simp [or_and_right, exists_or]
  granularity hget _ := by
    show IsLeast _ (if g.getGranularity = true ∧ a.granularity < g.granularity then
      a.granularity else g.granularity)
    have hcond : (g.getGranularity = true ∧ a.granularity < g.granularity) ↔
        a.granularity < g.granularity := and_iff_right hget
    rw [if_congr hcond rfl rfl]
    cases hrs : rs with
    | nil =>
      have hlt : a.granularity < g.granularity := by
        rw [h.noGranularity hrs]
        exact Nat.lt_of_le_of_lt a.granularity_le (by decide)
      rw [if_pos hlt]
      simp [IsLeast]
    | cons r rs' =>
      rw [← hrs]
      exact isLeast_append (h.granularity hget (by simp [hrs]))
  noGranularity hnil := absurd hnil (by simp)

theorem GetAttr.Merged.foldl (h : GetAttr.Merged p attrs rs g) (rs' : List Attrs) :
    GetAttr.Merged p attrs (rs ++ rs') (rs'.foldl GetAttr.visit g) := by
  induction rs' generalizing rs g with
  | nil => simpa using h
  | cons a rs' ih => simpa using ih (h.step a)

/-! ## The answers of the loop -/

variable {q : Attribute}

theorem any_type_of_mem {f : Attribute → Bool} (hq : q ∈ attrs) (hf : f q = true) :
    attrs.any f = true :=
  any_eq_true.mpr ⟨q, hq, hf⟩

theorem GetAttr.Merged.fillValue (h : GetAttr.Merged p attrs rs g) (hne : rs ≠ [])
    (hq : q ∈ attrs) (hread : q.type.Readable = true) :
    match g.fillValue p q with
    | .ok answer => Answers p rs q answer
    | .error _ => q.type = .access ∧ gpuidxFromGpuid p q.value = none := by
  unfold GetAttr.fillValue Answers
  cases htype : q.type with
  | preferredLoc =>
    exact ⟨rfl, (h.preferredLoc (any_type_of_mem hq (by simp [htype]))).isCommonLoc⟩
  | prefetchLoc =>
    exact ⟨rfl, (h.prefetchLoc (any_type_of_mem hq (by simp [htype]))).isCommonLoc⟩
  | access =>
    have hget : g.getAccessible = true :=
      h.getAccessible.trans (any_type_of_mem hq (by simp [htype]))
    cases hgpu : gpuidxFromGpuid p q.value with
    | none => exact ⟨rfl, rfl⟩
    | some i =>
      have hsame : g.accessType i = accessOfAll p rs i := by
        simp only [GetAttr.accessType, accessOfAll, h.access hget, h.aip hget]
      exact ⟨i, rfl, by rw [hsame]⟩
  | setFlags =>
    have hget : g.getFlags = true := h.getFlags.trans (any_type_of_mem hq (by simp [htype]))
    exact ⟨rfl, h.flagsAnd hget⟩
  | clrFlags =>
    have hget : g.getFlags = true := h.getFlags.trans (any_type_of_mem hq (by simp [htype]))
    refine ⟨rfl, fun bit hbit => ?_⟩
    show (~~~g.flagsOr).getLsbD bit = true ↔ _
    rw [BitVec.getLsbD_not, decide_eq_true hbit, Bool.true_and, Bool.not_eq_true',
      ← Bool.not_eq_true, h.flagsOr hget bit]
    simp
  | granularity =>
    have hget : g.getGranularity = true :=
      h.getGranularity.trans (any_type_of_mem hq (by simp [htype]))
    have hleast := h.granularity hget hne
    obtain ⟨r, -, hr⟩ := hleast.1
    have hlt : g.granularity < 2 ^ 32 := by
      have := r.granularity_le
      omega
    refine ⟨rfl, ?_⟩
    show IsLeast _ (UInt32.ofNat g.granularity).toNat
    rwa [UInt32.toNat_ofNat_of_lt' hlt]
  | accessInPlace | noAccess => exact absurd (htype ▸ hread) (by decide)
  | unknown type => exact absurd (htype ▸ hread) (by simp [AttrType.Readable])

theorem fillValue_default (hq : q ∈ attrs) :
    (GetAttr.default p attrs).fillValue p q =
      ((GetAttr.init p attrs).visit (defaultAttrs p)).fillValue p q := by
  unfold GetAttr.fillValue
  cases htype : q.type with
  | access =>
    have hget : (GetAttr.init p attrs).getAccessible = true :=
      any_type_of_mem hq (by simp [htype])
    have haccess : ((GetAttr.init p attrs).visit (defaultAttrs p)).access =
        (GetAttr.default p attrs).access := by
      show (if (GetAttr.init p attrs).getAccessible then
        p.bitmapSupported ∩ (if p.xnackEnabled then p.bitmapSupported else ∅) else _) = _
      rw [if_pos hget]
      simp only [GetAttr.default]
      split
      · exact Finset.inter_self _
      · exact Finset.inter_empty _
    have haip : ((GetAttr.init p attrs).visit (defaultAttrs p)).aip =
        (GetAttr.default p attrs).aip := by
      show (if (GetAttr.init p attrs).getAccessible then p.bitmapSupported ∩ ∅ else _) = _
      rw [if_pos hget]
      exact Finset.inter_empty _
    simp only [GetAttr.accessType, haccess, haip]
  | setFlags =>
    have hget : (GetAttr.init p attrs).getFlags = true := any_type_of_mem hq (by simp [htype])
    have hflags : ((GetAttr.init p attrs).visit (defaultAttrs p)).flagsAnd =
        (defaultAttrs p).flags := (if_pos hget).trans BitVec.allOnes_and
    simp only [hflags]
    rfl
  | clrFlags =>
    have hget : (GetAttr.init p attrs).getFlags = true := any_type_of_mem hq (by simp [htype])
    have hflags : ((GetAttr.init p attrs).visit (defaultAttrs p)).flagsOr =
        (defaultAttrs p).flags := (if_pos hget).trans BitVec.zero_or
    simp only [hflags]
    rfl
  | granularity =>
    have hget : (GetAttr.init p attrs).getGranularity = true :=
      any_type_of_mem hq (by simp [htype])
    have hgran : ((GetAttr.init p attrs).visit (defaultAttrs p)).granularity =
        (defaultAttrs p).granularity := if_pos ⟨hget, show 9 < 0xff by decide⟩
    simp only [hgran]
    rfl
  | preferredLoc => simp [GetAttr.visit, GetAttr.default, GetAttr.init, defaultAttrs, mergeLoc]
  | prefetchLoc => simp [GetAttr.visit, GetAttr.default, GetAttr.init, defaultAttrs, mergeLoc]
  | _ => rfl

theorem mapM_cases {α β ε : Type} (f : α → Except ε β) (xs : List α) :
    match xs.mapM f with
    | .ok ys => Forall₂ (fun x y => f x = .ok y) xs ys
    | .error e => ∃ x ∈ xs, f x = .error e := by
  induction xs with
  | nil => exact .nil
  | cons x xs ih =>
    rw [mapM_cons]
    cases hx : f x with
    | error e => exact ⟨x, mem_cons_self, hx⟩
    | ok y =>
      cases hxs : xs.mapM f with
      | error e =>
        rw [hxs] at ih
        obtain ⟨z, hz, hfz⟩ := ih
        exact ⟨z, mem_cons_of_mem _ hz, hfz⟩
      | ok ys =>
        rw [hxs] at ih
        exact .cons hx ih

theorem mapM_congr_mem {α β ε : Type} {f f' : α → Except ε β} {xs : List α}
    (h : ∀ x ∈ xs, f x = f' x) : xs.mapM f = xs.mapM f' := by
  induction xs with
  | nil => rfl
  | cons x xs ih =>
    rw [mapM_cons, mapM_cons, h x mem_cons_self,
      ih fun y hy => h y (mem_cons_of_mem _ hy)]

theorem exists_of_forall₂ {α β : Type} {R : α → β → Prop} {xs : List α} {ys : List β}
    (h : Forall₂ R xs ys) {y : β} (hy : y ∈ ys) : ∃ x ∈ xs, R x y := by
  induction h with
  | nil => exact absurd hy not_mem_nil
  | cons hxy _ ih =>
    rcases mem_cons.mp hy with rfl | hy
    · exact ⟨_, mem_cons_self, hxy⟩
    · obtain ⟨x, hx, hR⟩ := ih hy
      exact ⟨x, mem_cons_of_mem _ hx, hR⟩

/-- Why a query fails: the interval is not valid, or a question is of a type that cannot be asked
for or about no GPU of the process. -/
def Refused (p : Process) (valid : Option Errno) (attrs : List Attribute) : Prop :=
  valid ≠ none ∨ ∃ q ∈ attrs, q.type.Readable = false ∨
    q.type = .access ∧ gpuidxFromGpuid p q.value = none

theorem exists_merged (p : Process) (s : Svms) (start last : Nat) (attrs : List Attribute)
    (hread : attrs.all (·.type.Readable) = true) :
    ∃ g, svmRangeGetAttr p s start last attrs = attrs.mapM (g.fillValue p) ∧
      GetAttr.Merged p attrs (overlapping p s start last) g := by
  unfold svmRangeGetAttr overlapping
  simp only [hread, if_true]
  split
  · exact ⟨_, mapM_congr_mem fun q hq => fillValue_default hq, (GetAttr.Merged.init p attrs).step _⟩
  · refine ⟨_, rfl, ?_⟩
    have hmerged := (GetAttr.Merged.init p attrs).foldl
      ((s.tree.filter fun id => start ≤ (s.heap id).itLast ∧ (s.heap id).itStart ≤ last).map
        fun id => (s.heap id).attrs)
    rwa [nil_append, foldl_map] at hmerged

theorem overlapping_ne_nil (p : Process) (s : Svms) (start last : Nat) :
    overlapping p s start last ≠ [] := by
  simp only [overlapping]
  split
  · exact cons_ne_nil _ _
  · next hne => exact fun hnil => hne (map_eq_nil_iff.mp hnil)

theorem svmRangeGetAttr_answers (valid : Option Errno) (p : Process) (s : Svms) (start size : Nat)
    (attrs : List Attribute) :
    match svmIoctlGetAttr valid p s start size attrs with
    | .ok answers =>
      Forall₂ (Answers p (overlapping p s start (start + size - 1))) attrs answers
    | .error _ => Refused p valid attrs := by
  cases valid with
  | some e => exact .inl (by simp)
  | none =>
    show match svmRangeGetAttr p s start (start + size - 1) attrs with
      | .ok answers => _
      | .error _ => _
    cases hread : attrs.all (·.type.Readable) with
    | false =>
      obtain ⟨q, hq, hno⟩ := all_eq_false.mp hread
      have herr : svmRangeGetAttr p s start (start + size - 1) attrs = .error .einval := by
        simp [svmRangeGetAttr, hread]
      rw [herr]
      exact .inr ⟨q, hq, .inl (by simpa using hno)⟩
    | true =>
      obtain ⟨g, heq, hmerged⟩ := exists_merged p s start (start + size - 1) attrs hread
      have hq := fun q hq => hmerged.fillValue (overlapping_ne_nil p s start _) hq
        (all_eq_true.mp hread q hq)
      have hcases := mapM_cases (g.fillValue p) attrs
      rw [heq]
      cases hmap : attrs.mapM (g.fillValue p) with
      | error e =>
        rw [hmap] at hcases
        obtain ⟨q, hmem, hfill⟩ := hcases
        have hq := hq q hmem
        rw [hfill] at hq
        exact .inr ⟨q, hmem, .inr hq⟩
      | ok answers =>
        rw [hmap] at hcases
        -- every question is one of the list
        have hboth := (forall₂_and_left attrs answers).mpr ⟨fun q hmem => hmem, hcases⟩
        refine hboth.imp fun q answer ⟨hmem, hfill⟩ => ?_
        have hq := hq q hmem
        rwa [hfill] at hq

end Loop

/-! ## After the attributes were set -/

def Attribute.tells (answer : Attribute) : Setting → Option SettingValue
  | .preferredLoc =>
    if answer.type = .preferredLoc then some (.location answer.value) else none
  | .prefetchLoc => if answer.type = .prefetchLoc then some (.location answer.value) else none
  | .access gpuId =>
    if (answer.type = .access ∨ answer.type = .accessInPlace ∨ answer.type = .noAccess) ∧
        answer.value = gpuId then
      some (.access answer.type)
    else none
  | .flag bit =>
    match answer.type with
    | .setFlags => some (.flag (answer.value.toBitVec.getLsbD bit))
    | .clrFlags => some (.flag (!answer.value.toBitVec.getLsbD bit))
    | _ => none
  | .granularity =>
    if answer.type = .granularity then some (.granularity answer.value.toNat) else none

def LastNames (attrs : List Attribute) (k : Setting) (attr : Attribute) : Prop :=
  ∃ before after, attrs = before ++ attr :: after ∧ attr.Names k ∧ ∀ x ∈ after, ¬x.Names k

section SetThenGet
variable {p : Process} {rs : List Attrs} {q answer attr : Attribute} {k : Setting}
  {attrs : List Attribute}

def Setting.Settable (p : Process) : Setting → Prop
  | .access gpuId => ∀ i ∈ gpuidxFromGpuid p gpuId, i ∈ p.bitmapSupported
  | .flag bit => bit < 32
  | _ => True

theorem Attribute.Names.settable (hnames : attr.Names k) (hcheck : checkAttr p attr = none) :
    k.Settable p := by
  cases k with
  | access gpuId =>
    obtain ⟨htype, rfl⟩ := hnames
    intro i hi
    have hi : gpuidxFromGpuid p attr.value = some i := hi
    unfold checkAttr at hcheck
    by_contra hno
    rcases htype with htype | htype | htype
    · simp [htype, hi, hno] at hcheck
    · simp [htype, hi, hno] at hcheck
    · simp [htype, hi, hno] at hcheck
  | flag bit =>
    by_contra hge
    have hbit := hnames.2
    rw [BitVec.getLsbD_of_ge _ _ (Nat.le_of_not_lt hge)] at hbit
    exact absurd hbit Bool.false_ne_true
  | _ => trivial

variable {i : Nat} {r : Attrs}

variable {a : Attrs} {m : Nat → Option Attrs}

theorem mem_access_iff : i ∈ a.access ↔ a.accessType i = .access := by
  unfold Attrs.accessType
  split
  · simp [*]
  · split <;> simp [*]

theorem mem_aip_iff : i ∈ a.aip ↔ a.accessType i = .accessInPlace := by
  unfold Attrs.accessType
  split
  · next haccess => simp [a.disjoint i haccess]
  · split <;> simp [*]

theorem accessOfAll_eq {type : AttrType} (hne : rs ≠ []) (hsup : i ∈ p.bitmapSupported)
    (hall : ∀ r ∈ rs, r.accessType i = type) : accessOfAll p rs i = type := by
  obtain ⟨r, hr⟩ := exists_mem_of_ne_nil rs hne
  have haccess : (i ∈ p.bitmapSupported ∧ ∀ r ∈ rs, i ∈ r.access) ↔ type = .access := by
    refine ⟨fun h => (hall r hr).symm.trans (mem_access_iff.mp (h.2 r hr)), fun h => ?_⟩
    exact ⟨hsup, fun r hr => mem_access_iff.mpr ((hall r hr).trans h)⟩
  have haip : (i ∈ p.bitmapSupported ∧ ∀ r ∈ rs, i ∈ r.aip) ↔ type = .accessInPlace := by
    refine ⟨fun h => (hall r hr).symm.trans (mem_aip_iff.mp (h.2 r hr)), fun h => ?_⟩
    exact ⟨hsup, fun r hr => mem_aip_iff.mpr ((hall r hr).trans h)⟩
  unfold accessOfAll
  simp only [haccess, haip]
  rcases accessType_cases r i with h | h | h
  · rw [hall r hr] at h
    simp [h]
  · rw [hall r hr] at h
    simp [h]
  · rw [hall r hr] at h
    simp [h]

theorem accessOfAll_ofAccess (p : Process) (rs : List Attrs) (i : Nat) :
    (accessOfAll p rs i).OfAccess := by
  unfold accessOfAll AttrType.OfAccess
  split
  · exact .inl rfl
  · split
    · exact .inr (.inl rfl)
    · exact .inr (.inr rfl)

theorem IsCommonLoc.eq_of_same {read : Attrs → UInt32} {loc : UInt32}
    (h : IsCommonLoc (rs.map read) loc) (hr : r ∈ rs) (hsame : ∀ r' ∈ rs, read r' = read r) :
    loc = read r := by
  rcases h with hcommon | ⟨-, x, hx, y, hy, hxy⟩
  · exact (hcommon (read r) (mem_map_of_mem hr)).symm
  · obtain ⟨rx, hrx, rfl⟩ := mem_map.mp hx
    obtain ⟨ry, hry, rfl⟩ := mem_map.mp hy
    exact absurd ((hsame rx hrx).trans (hsame ry hry).symm) hxy

theorem forall_flag_iff {bit : Nat} {b : Bool} (hr : r ∈ rs)
    (hsame : ∀ r' ∈ rs, r'.setting p (.flag bit) = r.setting p (.flag bit)) :
    (∀ r' ∈ rs, r'.flags.getLsbD bit = b) ↔ r.flags.getLsbD bit = b :=
  ⟨fun h => h r hr, fun h r' hr' => (SettingValue.flag.inj (hsame r' hr')).trans h⟩

theorem setting_access {gpuId : UInt32} (hgpu : gpuidxFromGpuid p gpuId = some i) :
    r.setting p (.access gpuId) = .access (r.accessType i) := by
  show SettingValue.access ((gpuidxFromGpuid p gpuId).elim _ _) = _
  rw [hgpu]
  rfl

theorem Answers.tells (h : Answers p rs q answer) (hne : rs ≠ []) (hk : k.Settable p)
    {v w : SettingValue} (hall : ∀ r ∈ rs, r.setting p k = w) (htells : answer.tells k = some v) :
    v = w := by
  obtain ⟨r, hr⟩ := exists_mem_of_ne_nil rs hne
  have hsame (r' : Attrs) (hr' : r' ∈ rs) : r'.setting p k = r.setting p k :=
    (hall r' hr').trans (hall r hr).symm
  rw [← hall r hr]
  unfold Answers at h
  cases htype : q.type with
  | preferredLoc =>
    simp only [htype] at h
    obtain ⟨hanswer, hcommon⟩ := h
    cases k with
    | preferredLoc =>
      simp only [Attribute.tells, hanswer, if_true, Option.some.injEq] at htells
      have hloc := hcommon.eq_of_same hr fun r' hr' => SettingValue.location.inj (hsame r' hr')
      rw [← htells, hloc]
      rfl
    | _ => simp [Attribute.tells, hanswer] at htells
  | prefetchLoc =>
    simp only [htype] at h
    obtain ⟨hanswer, hcommon⟩ := h
    cases k with
    | prefetchLoc =>
      simp only [Attribute.tells, hanswer, if_true, Option.some.injEq] at htells
      have hloc := hcommon.eq_of_same hr fun r' hr' => SettingValue.location.inj (hsame r' hr')
      rw [← htells, hloc]
      rfl
    | _ => simp [Attribute.tells, hanswer] at htells
  | access =>
    simp only [htype] at h
    obtain ⟨i, hgpu, rfl⟩ := h
    have haccess := accessOfAll_ofAccess p rs i
    cases k with
    | access gpuId =>
      simp only [Attribute.tells] at htells
      split at htells
      · next hanswer =>
        obtain rfl : q.value = gpuId := hanswer.2
        rw [← some.inj htells, setting_access hgpu]
        refine congrArg SettingValue.access (accessOfAll_eq hne (hk i hgpu) fun r' hr' => ?_)
        have hboth := hsame r' hr'
        rw [setting_access hgpu, setting_access hgpu] at hboth
        exact SettingValue.access.inj hboth
      · exact absurd htells (by simp)
    | _ => rcases haccess with h | h | h <;> simp [Attribute.tells, h] at htells
  | setFlags =>
    simp only [htype] at h
    obtain ⟨hanswer, hflags⟩ := h
    cases k with
    | flag bit =>
      simp only [Attribute.tells, hanswer, Option.some.injEq] at htells
      rw [← htells]
      refine congrArg SettingValue.flag (Bool.eq_iff_iff.mpr ?_)
      exact (hflags bit hk).trans (forall_flag_iff hr hsame)
    | _ => simp [Attribute.tells, hanswer] at htells
  | clrFlags =>
    simp only [htype] at h
    obtain ⟨hanswer, hflags⟩ := h
    cases k with
    | flag bit =>
      simp only [Attribute.tells, hanswer, Option.some.injEq] at htells
      rw [← htells]
      refine congrArg SettingValue.flag ?_
      rw [Bool.not_eq_eq_eq_not, Bool.eq_iff_iff, hflags bit hk, Bool.not_eq_true']
      exact forall_flag_iff hr hsame
    | _ => simp [Attribute.tells, hanswer] at htells
  | granularity =>
    simp only [htype] at h
    obtain ⟨hanswer, ⟨r', hr', hleast⟩, -⟩ := h
    cases k with
    | granularity =>
      simp only [Attribute.tells, hanswer, if_true, Option.some.injEq] at htells
      rw [← htells, ← hleast]
      exact hsame r' hr'
    | _ => simp [Attribute.tells, hanswer] at htells
  | _ => simp only [htype] at h

theorem overlapping_set {s : Svms} {start size : Nat} (hsize : 0 < size)
    (hs : s.Ok (modifyOn (applyAttrs p attrs) (defaultAttrs p) m start (start + size)))
    (hcheck : svmRangeCheckAttr p attrs = none) (hlast : LastNames attrs k attr) :
    ∀ r ∈ overlapping p s start (start + size - 1), r.setting p k = attr.gives k := by
  have hcheck : ∀ x ∈ attrs, checkAttr p x = none := findSome?_eq_none_iff.mp hcheck
  obtain ⟨before, after, rfl, hnames, hafter⟩ := hlast
  have happly (a : Attrs) : (applyAttrs p (before ++ attr :: after) a).setting p k = attr.gives k :=
    (applyAttr_assigns p).foldl_last (hcheck attr (by simp)) (fun x hx => hcheck x (by simp [hx]))
      hnames hafter a
  have hset {x : Nat} (hx : start ≤ x ∧ x < start + size) {a : Attrs}
      (ha : modifyOn (applyAttrs p (before ++ attr :: after)) (defaultAttrs p) m start
        (start + size) x = some a) : a.setting p k = attr.gives k := by
    rw [modifyOn, if_pos hx] at ha
    rw [← some.inj ha]
    exact happly _
  have hin {id : Nat} (hid : id ∈ s.tree) (hov : start ≤ (s.heap id).itLast ∧
      (s.heap id).itStart ≤ start + size - 1) : (s.heap id).attrs.setting p k = attr.gives k := by
    have hmem := hs.perm.mem_iff.mpr hid
    rw [(hs.node id hmem).1, (hs.node id hmem).2] at hov
    have hpiece := mem_map_of_mem (f := fun id => (s.heap id).piece) hmem
    have hle : (s.heap id).start ≤ (s.heap id).last := hs.represents.nonempty _ hpiece
    -- the first page that the range and the interval share
    refine hset (x := max start (s.heap id).start) (by omega) ?_
    refine hs.represents.eq_some hpiece ⟨Nat.le_max_right _ _, ?_⟩
    exact Nat.max_le.mpr ⟨hov.1, hle⟩
  simp only [overlapping]
  split
  · next hnil =>
    -- the first page of the interval is in a range
    have hset : ∃ a, modifyOn (applyAttrs p (before ++ attr :: after)) (defaultAttrs p) m start
        (start + size) start = some a := ⟨_, if_pos ⟨le_rfl, by omega⟩⟩
    obtain ⟨a, ha⟩ := hset
    obtain ⟨_, hpiece, hcovers, -⟩ := (hs.represents.value start a).mp ha
    obtain ⟨id, hid, rfl⟩ := mem_map.mp hpiece
    have hstart : (s.heap id).start ≤ start := hcovers.1
    have hlast : start ≤ (s.heap id).last := hcovers.2
    refine absurd hnil (ne_nil_of_mem (a := id) (mem_filter.mpr ?_))
    rw [(hs.node id hid).1, (hs.node id hid).2]
    exact ⟨hs.perm.mem_iff.mp hid, decide_eq_true ⟨hlast, by omega⟩⟩
  · intro r hr
    obtain ⟨id, hid, rfl⟩ := mem_map.mp hr
    obtain ⟨hmem, hov⟩ := mem_filter.mp hid
    exact hin hmem (of_decide_eq_true hov)

theorem set_ok {s s' : Svms} {al : Alloc} {valid : Option Errno} {start size : Nat}
    {work : SetAttrWork} (hs : s.Ok m) (hsize : 0 < size)
    (hpage : ∀ id ∈ s.list, (s.heap id).start = 0 →
      ¬Replaces p attrs start (start + size - 1) (s.heap id))
    (hset : svmRangeSetAttr p al valid attrs start size s = (s', .ok work)) :
    svmRangeCheckAttr p attrs = none ∧
      s'.Ok (modifyOn (applyAttrs p attrs) (defaultAttrs p) m start (start + size)) := by
  cases hcheck : svmRangeCheckAttr p attrs with
  | some e =>
    simp [svmRangeSetAttr, hcheck] at hset
  | none =>
    have htrans := svmRangeSetAttr_transacts hs hsize hcheck hpage al valid
    rw [hset] at htrans
    exact ⟨rfl, htrans⟩

end SetThenGet

/-! ## Both together -/

/-- Every query is answered from the ranges that overlap the interval, or refused. After
attributes were set on an interval, an answer for the interval that tells about a setting has what
the last attribute for this setting gave. -/
theorem getAttr_right (p : Process) (s : Svms) :
    (∀ valid start size questions,
      match svmIoctlGetAttr valid p s start size questions with
      | .ok answers =>
        Forall₂ (Answers p (overlapping p s start (start + size - 1))) questions answers
      | .error _ => Refused p valid questions) ∧
    ∀ m, s.Ok m → ∀ al valid attrs start size, 0 < size →
      (∀ id ∈ s.list, (s.heap id).start = 0 →
        ¬Replaces p attrs start (start + size - 1) (s.heap id)) →
      ∀ s' work, svmRangeSetAttr p al valid attrs start size s = (s', .ok work) →
        ∀ valid' questions answers,
          svmIoctlGetAttr valid' p s' start size questions = .ok answers →
          ∀ answer ∈ answers, ∀ k attr v, LastNames attrs k attr → answer.tells k = some v →
            v = attr.gives k := by
  refine ⟨fun valid start size questions => svmRangeGetAttr_answers valid p s start size questions,
    ?_⟩
  intro m hs al valid attrs start size hsize hpage s' work hset valid' questions answers hget
    answer hanswer k attr v hlast htells
  obtain ⟨hcheck, hs'⟩ := set_ok hs hsize hpage hset
  have hanswers := svmRangeGetAttr_answers valid' p s' start size questions
  rw [hget] at hanswers
  obtain ⟨q, -, hq⟩ := exists_of_forall₂ hanswers hanswer
  have hsettable : k.Settable p := by
    obtain ⟨before, after, rfl, hnames, -⟩ := hlast
    exact hnames.settable (findSome?_eq_none_iff.mp hcheck attr (by simp))
  exact hq.tells (overlapping_ne_nil p s' start _) hsettable
    (overlapping_set hsize hs' hcheck hlast) htells

def exSetFlags : Svms × Except Errno SetAttrWork :=
  svmRangeSetAttr exProcess ⟨fun _ => true, fun _ => true⟩ none
    [⟨.setFlags, 8⟩, ⟨.accessInPlace, 1⟩] 4 12 (exSvms 4 15)

theorem getAttr_right_exSetFlags : ∀ answers,
    svmIoctlGetAttr none exProcess exSetFlags.1 4 12 [⟨.setFlags, 0⟩] = .ok answers →
      ∀ answer ∈ answers, ∀ v, answer.tells (.flag 3) = some v → v = .flag true := by
  intro answers hget answer hanswer v htells
  refine (getAttr_right exProcess (exSvms 4 15)).2 (exMap 4 15) (exSvms_ok (by decide))
    ⟨fun _ => true, fun _ => true⟩ none [⟨.setFlags, 8⟩, ⟨.accessInPlace, 1⟩] 4 12 (by decide)
    (by decide) exSetFlags.1 _ rfl none _ answers hget answer hanswer (.flag 3) ⟨.setFlags, 8⟩ v
    ⟨[], [⟨.accessInPlace, 1⟩], rfl, ⟨.inl rfl, by decide⟩, ?_⟩ htells
  simp [Attribute.Names]

/-- The flag 8 and access in place were set. The query tells the flags 11, since the default flags
are set as well, and it is an error to ask for access in place. -/
theorem getAttr_broken :
    exSetFlags.2.toOption.isSome ∧
      svmIoctlGetAttr none exProcess exSetFlags.1 4 12 [⟨.setFlags, 8⟩] = .ok [⟨.setFlags, 11⟩] ∧
      svmIoctlGetAttr none exProcess exSetFlags.1 4 12 [⟨.accessInPlace, 1⟩] = .error .einval :=
  ⟨by decide, by rfl, by rfl⟩

end Amdkfd.Svm

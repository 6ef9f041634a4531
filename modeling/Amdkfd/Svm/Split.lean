import Amdkfd.Svm.SetAttr

/-!
# What a split keeps

`svm_range_split` cuts a range in two, and `svm_range_add` cuts a clone of a range in up
to three. Each page keeps its DMA addresses, its place in VRAM and the attributes of its
range. The VRAM fields are only handed on by a range that is in VRAM: a range that was
moved back to system memory may still point to the BO of its neighbours, and the new
piece of it does not.
-/

namespace Amdkfd.Svm

open Function List

/-! ## What a page means -/

def Range.Has (r : Range) (page : Nat) : Prop :=
  r.start ≤ page ∧ page ≤ r.last
  deriving Decidable

def Range.dmaAt (r : Range) (gpu page : Nat) : Option UInt64 :=
  (r.dmaAddr[gpu]?).join.bind (·[page - r.start]?)

/-- The range is in VRAM, as `svm_range_split_adjust` asks. -/
def Range.InVram (r : Range) : Prop :=
  r.actualLoc ≠ 0 ∧ r.ttmRes.isSome = true
  deriving Decidable

def Range.vramAt (r : Range) (page : Nat) : Option (Nat × Nat) :=
  if r.InVram then r.svmBo.map fun bo => (bo, r.offset + (page - r.start)) else none

/-- The page means the same in both ranges. -/
structure SamePage (r r' : Range) (page : Nat) : Prop where
  dma : ∀ gpu, r'.dmaAt gpu page = r.dmaAt gpu page
  vram : r'.vramAt page = r.vramAt page
  attrs : r'.attrs = r.attrs
  actualLoc : r'.actualLoc = r.actualLoc
  mappedToGpu : r'.mappedToGpu = r.mappedToGpu

def Range.Sized (r : Range) : Prop :=
  r.npages + r.start = r.last + 1

structure Preserved (r : Range) (pieces : List Range) : Prop where
  pages : ∀ page, r.Has page ↔ ∃ q ∈ pieces, q.Has page
  disjoint : pieces.Pairwise fun q q' => ∀ page, q.Has page → ¬q'.Has page
  sized : ∀ q ∈ pieces, q.Sized
  same : ∀ q ∈ pieces, ∀ page, q.Has page → SamePage r q page

/-- The ranges that the driver makes. Migration, mapping and the attributes change any of
the fields but those of the interval. -/
inductive Made (p : Process) : Range → Prop
  | new {start last : Nat} (h : start ≤ last) : Made p (svmRangeNew p start last)
  | clone {r : Range} (h : Made p r) : Made p (svmRangeClone p r)
  | splitOld {r old new : Range} {newOk dmaOk : Bool} {start last : Nat} (h : Made p r)
      (hsplit : svmRangeSplit p newOk dmaOk r start last = .ok (old, new)) : Made p old
  | splitNew {r old new : Range} {newOk dmaOk : Bool} {start last : Nat} (h : Made p r)
      (hsplit : svmRangeSplit p newOk dmaOk r start last = .ok (old, new)) : Made p new
  | update {r r' : Range} (h : Made p r) (hstart : r'.start = r.start) (hlast : r'.last = r.last)
      (hnpages : r'.npages = r.npages) : Made p r'

section Split
variable {p : Process} {r old new : Range} {newOk dmaOk : Bool} {start last page : Nat}

variable {q : Range}

theorem SamePage.trans (h : SamePage r q page) (h' : SamePage q new page) : SamePage r new page :=
  ⟨fun gpu => (h'.dma gpu).trans (h.dma gpu), h'.vram.trans h.vram, h'.attrs.trans h.attrs,
    h'.actualLoc.trans h.actualLoc, h'.mappedToGpu.trans h.mappedToGpu⟩

/-! ## One split -/

theorem svmRangeSplit_ok (h : svmRangeSplit p newOk dmaOk r start last = .ok (old, new)) :
    (r.start = start ∧ start ≤ last + 1 ∧ last ≤ r.last ∧
      (old, new) = splitAdjust (svmRangeNew p (last + 1) r.last) r start last) ∨
    (r.start < start ∧ start ≤ last + 1 ∧ last = r.last ∧
      (old, new) = splitAdjust (svmRangeNew p r.start (start - 1)) r start last) := by
  unfold svmRangeSplit at h
  split at h
  · cases h
  · next hends =>
    split at h
    · cases h
    · next hinside =>
      split at h
      · cases h
      · dsimp only at h
        by_cases heq : r.start = start
        · simp only [if_pos heq, svmRangeNew_start, svmRangeNew_last] at h
          split at h
          · cases h
          · next hfit =>
            split at h
            · cases h
            · exact .inl ⟨heq, by omega, by omega, (Except.ok.inj h).symm⟩
        · simp only [if_neg heq, svmRangeNew_start, svmRangeNew_last] at h
          split at h
          · cases h
          · next hfit =>
            split at h
            · cases h
            · exact .inr ⟨by omega, by omega, by omega, (Except.ok.inj h).symm⟩

theorem getElem?_take_drop (arr : List UInt64) {d n k : Nat} (h : k < n) :
    ((arr.drop d).take n)[k]? = arr[d + k]? := by
  rw [getElem?_take_of_lt h, getElem?_drop]

theorem dmaAt_cut {f : List UInt64 → List UInt64} (hdma : q.dmaAddr = r.dmaAddr.map (·.map f))
    {d n : Nat} (hf : ∀ arr, f arr = (arr.drop d).take n) (hn : page - q.start < n)
    (hd : d + (page - q.start) = page - r.start) (gpu : Nat) :
    q.dmaAt gpu page = r.dmaAt gpu page := by
  unfold Range.dmaAt
  rw [hdma, getElem?_map]
  cases r.dmaAddr[gpu]? with
  | none => rfl
  | some arr =>
    cases arr with
    | none => rfl
    | some arr =>
      simp only [Option.map_some, Option.join_some, Option.bind_some]
      rw [hf, getElem?_take_drop arr hn, hd]

theorem splitAdjust_old_samePage {n : Range} (hpage : start ≤ page ∧ page ≤ last)
    (hcut : (n.start = r.start ∧ r.start + n.npages = start) ∨
      (n.start ≠ r.start ∧ r.start = start)) :
    SamePage r (splitAdjust n r start last).1 page := by
  refine ⟨fun gpu => ?_, ?_, rfl, rfl, rfl⟩
  · refine dmaAt_cut (f := oldArray r n (last + 1 - start)) rfl (fun arr => rfl) ?_ ?_ gpu
    · simp only [splitAdjust_old_start]
      omega
    · simp only [splitAdjust_old_start]
      rcases hcut with ⟨hhead, hlen⟩ | ⟨htail, hstart⟩
      · rw [if_pos hhead]
        omega
      · rw [if_neg htail]
        omega
  · unfold Range.vramAt
    by_cases hvram : r.InVram
    · have hvram' : (splitAdjust n r start last).1.InVram := hvram
      rw [if_pos hvram, if_pos hvram']
      have hoffset : (splitAdjust n r start last).1.offset + (page - start) =
          r.offset + (page - r.start) := by
        simp only [splitAdjust]
        rcases hcut with ⟨hhead, hlen⟩ | ⟨htail, hstart⟩
        · rw [if_pos ⟨hvram, hhead⟩]
          omega
        · rw [if_neg fun h => htail h.2]
          omega
      rw [splitAdjust_old_start, hoffset]
      rfl
    · have hvram' : ¬(splitAdjust n r start last).1.InVram := hvram
      rw [if_neg hvram, if_neg hvram']

theorem splitAdjust_new_samePage {n : Range} (hn : n.ttmRes = none) (hsized : n.Sized)
    (hpage : n.Has page)
    (hcut : n.start = r.start ∨ (n.start ≠ r.start ∧ r.start = start ∧ n.start = last + 1 ∧
      start ≤ last + 1)) :
    SamePage r (splitAdjust n r start last).2 page := by
  obtain ⟨hlo, hhi⟩ := hpage
  unfold Range.Sized at hsized
  refine ⟨fun gpu => ?_, ?_, rfl, rfl, rfl⟩
  · refine dmaAt_cut (f := newArray r n) rfl (fun arr => rfl) ?_ ?_ gpu
    · simp only [splitAdjust_new_start]
      omega
    · simp only [splitAdjust_new_start]
      rcases hcut with hhead | ⟨-, hstart, htail, hle⟩
      · omega
      · omega
  · unfold Range.vramAt
    by_cases hvram : r.InVram
    · have hres : (splitAdjust n r start last).2.ttmRes = r.ttmRes := if_pos hvram
      have hbo : (splitAdjust n r start last).2.svmBo = r.svmBo := if_pos hvram
      have hvram' : (splitAdjust n r start last).2.InVram := ⟨hvram.1, hres ▸ hvram.2⟩
      rw [if_pos hvram, if_pos hvram', hbo]
      have hoffset : (splitAdjust n r start last).2.offset + (page - n.start) =
          r.offset + (page - r.start) := by
        simp only [splitAdjust]
        rw [if_pos (show r.actualLoc ≠ 0 ∧ r.ttmRes.isSome = true from hvram)]
        rcases hcut with hhead | ⟨hne, hstart, htail, hle⟩
        · rw [if_pos hhead, hhead]
        · rw [if_neg hne]
          omega
      rw [splitAdjust_new_start, hoffset]
    · have hres : (splitAdjust n r start last).2.ttmRes = none := (if_neg hvram).trans hn
      have hvram' : ¬(splitAdjust n r start last).2.InVram := by
        rintro ⟨-, hsome⟩
        rw [hres] at hsome
        cases hsome
      rw [if_neg hvram, if_neg hvram']

theorem svmRangeNew_sized (h : start ≤ last + 1) : (svmRangeNew p start last).Sized := by
  show last + 1 - start + start = last + 1
  omega

theorem Preserved.pair (hpages : ∀ page, r.Has page ↔ old.Has page ∨ new.Has page)
    (hdisjoint : ∀ page, old.Has page → ¬new.Has page) (hold : old.Sized) (hnew : new.Sized)
    (hsameOld : ∀ page, old.Has page → SamePage r old page)
    (hsameNew : ∀ page, new.Has page → SamePage r new page) : Preserved r [old, new] := by
  constructor
  · intro page
    rw [hpages page]
    simp only [mem_cons, not_mem_nil, or_false, exists_eq_or_imp, exists_eq_left]
  · refine pairwise_cons.mpr ⟨fun q hq page => ?_, pairwise_singleton _ _⟩
    rw [mem_singleton.mp hq]
    exact hdisjoint page
  · intro q hq
    rcases mem_cons.mp hq with rfl | hq
    · exact hold
    · rw [mem_singleton.mp hq]
      exact hnew
  · intro q hq
    rcases mem_cons.mp hq with rfl | hq
    · exact hsameOld
    · rw [mem_singleton.mp hq]
      exact hsameNew

theorem svmRangeSplit_preserved (h : svmRangeSplit p newOk dmaOk r start last = .ok (old, new)) :
    Preserved r [old, new] := by
  have hsized : ∀ n : Range, start ≤ last + 1 → (splitAdjust n r start last).1.Sized := by
    intro n hle
    show last + 1 - start + start = last + 1
    omega
  rcases svmRangeSplit_ok h with ⟨hstart, hle, hlast, heq⟩ | ⟨hstart, hle, hlast, heq⟩
  · obtain rfl := congrArg Prod.fst heq
    obtain rfl := congrArg Prod.snd heq
    have hnew : (svmRangeNew p (last + 1) r.last).Sized := svmRangeNew_sized (by omega)
    refine Preserved.pair (fun page => ?_) (fun page => ?_) (hsized _ hle) hnew
      (fun page hpage => ?_)
      (fun page hpage => ?_)
    · simp only [Range.Has, splitAdjust_old_start, splitAdjust_old_last, splitAdjust_new_start,
        splitAdjust_new_last, svmRangeNew_start, svmRangeNew_last]
      omega
    · simp only [Range.Has, splitAdjust_old_last, splitAdjust_new_start, svmRangeNew_start]
      omega
    · obtain ⟨hlo, hhi⟩ := hpage
      simp only [splitAdjust_old_start, splitAdjust_old_last] at hlo hhi
      refine splitAdjust_old_samePage ⟨hlo, hhi⟩ (.inr ⟨?_, hstart⟩)
      simp only [svmRangeNew_start]
      omega
    · refine splitAdjust_new_samePage rfl hnew hpage ?_
      by_cases hhead : last + 1 = r.start
      · exact .inl hhead
      · exact .inr ⟨hhead, hstart, rfl, hle⟩
  · obtain rfl := congrArg Prod.fst heq
    obtain rfl := congrArg Prod.snd heq
    have hnew : (svmRangeNew p r.start (start - 1)).Sized := svmRangeNew_sized (by omega)
    refine Preserved.pair (fun page => ?_) (fun page => ?_) (hsized _ hle) hnew
      (fun page hpage => ?_)
      (fun page hpage => ?_)
    · simp only [Range.Has, splitAdjust_old_start, splitAdjust_old_last, splitAdjust_new_start,
        splitAdjust_new_last, svmRangeNew_start, svmRangeNew_last]
      omega
    · simp only [Range.Has, splitAdjust_old_start, splitAdjust_new_last, svmRangeNew_last]
      omega
    · refine splitAdjust_old_samePage hpage (.inl ⟨rfl, ?_⟩)
      show r.start + (start - 1 + 1 - r.start) = start
      omega
    · exact splitAdjust_new_samePage rfl hnew hpage (.inl rfl)

/-! ## Clones -/

theorem Made.sized (h : Made p r) : r.Sized := by
  induction h with
  | new hle => exact svmRangeNew_sized (by omega)
  | @clone r h ih =>
    show r.last + 1 - r.start + r.start = r.last + 1
    unfold Range.Sized at ih
    omega
  | splitOld h hsplit ih => exact (svmRangeSplit_preserved hsplit).sized _ mem_cons_self
  | splitNew h hsplit ih =>
    exact (svmRangeSplit_preserved hsplit).sized _ (mem_cons_of_mem _ mem_cons_self)
  | update h hstart hlast hnpages ih =>
    unfold Range.Sized
    rw [hnpages, hstart, hlast]
    exact ih

theorem svmRangeClone_samePage (h : r.Sized) (hpage : r.Has page) :
    SamePage r (svmRangeClone p r) page := by
  obtain ⟨hlo, hhi⟩ := hpage
  unfold Range.Sized at h
  refine ⟨fun gpu => ?_, ?_, rfl, rfl, rfl⟩
  · have hdma : (svmRangeClone p r).dmaAddr = r.dmaAddr.map (·.map (·.take r.npages)) := rfl
    refine dmaAt_cut hdma (d := 0) (n := r.npages) (fun arr => ?_) ?_ (Nat.zero_add _) gpu
    · rw [drop_zero]
    · simp only [svmRangeClone_start]
      omega
  · unfold Range.vramAt
    cases hbo : r.svmBo with
    | none =>
      have hbo' : (svmRangeClone p r).svmBo = none := hbo
      simp only [hbo', Option.map_none, ite_self]
    | some bo =>
      have hres : (svmRangeClone p r).ttmRes = r.ttmRes := if_pos (by rw [hbo]; rfl)
      have hoffset : (svmRangeClone p r).offset = r.offset := if_pos (by rw [hbo]; rfl)
      have hbo' : (svmRangeClone p r).svmBo = some bo := hbo
      have hiff : (svmRangeClone p r).InVram ↔ r.InVram := by
        unfold Range.InVram
        rw [hres]
        exact Iff.rfl
      rw [hbo', hoffset, svmRangeClone_start]
      simp only [hiff]

theorem svmRangeClone_preserved (h : r.Sized) : Preserved r [svmRangeClone p r] := by
  constructor
  · intro page
    simp only [mem_singleton, exists_eq_left]
    exact Iff.rfl
  · exact pairwise_singleton _ _
  · intro q hq
    rw [mem_singleton.mp hq]
    show r.last + 1 - r.start + r.start = r.last + 1
    unfold Range.Sized at h
    omega
  · intro q hq page hpage
    rw [mem_singleton.mp hq] at hpage ⊢
    exact svmRangeClone_samePage h hpage

/-! ## Pieces of pieces -/

theorem Preserved.cut {pieces more : List Range} (h : Preserved r (q :: pieces))
    (hq : Preserved q more) : Preserved r (more ++ pieces) := by
  have hfirst := pairwise_cons.mp h.disjoint
  constructor
  · intro page
    rw [h.pages page]
    simp only [mem_cons, mem_append, or_and_right, exists_or, exists_eq_left]
    rw [hq.pages page]
  · refine pairwise_append.mpr ⟨hq.disjoint, hfirst.2, fun x hx y hy page hpage => ?_⟩
    exact hfirst.1 y hy page ((hq.pages page).mpr ⟨x, hx, hpage⟩)
  · intro x hx
    rcases mem_append.mp hx with hx | hx
    · exact hq.sized x hx
    · exact h.sized x (mem_cons_of_mem q hx)
  · intro x hx page hpage
    rcases mem_append.mp hx with hx | hx
    · have hmem : q.Has page := (hq.pages page).mpr ⟨x, hx, hpage⟩
      exact (h.same q mem_cons_self page hmem).trans (hq.same x hx page hpage)
    · exact h.same x (mem_cons_of_mem q hx) page hpage

theorem Preserved.perm {pieces pieces' : List Range} (h : Preserved r pieces)
    (hperm : pieces.Perm pieces') : Preserved r pieces' := by
  constructor
  · intro page
    rw [h.pages page]
    simp only [hperm.mem_iff]
  · refine hperm.pairwise h.disjoint fun hxy page hy hx => hxy page hx hy
  · exact fun q hq => h.sized q (hperm.mem_iff.mpr hq)
  · exact fun q hq => h.same q (hperm.mem_iff.mpr hq)

/-! ## `svm_range_add` -/

/-- The pieces of a range in the state of `svm_range_add`: the clone at `id`, and those
at `ids`, which were all put on `insert`. -/
structure CutAt (r : Range) (a0 a : AddState) (id : Nat) (ids : List Nat) : Prop where
  insert : a.insert = ids ++ id :: a0.insert
  lt : ∀ x ∈ id :: ids, x < a.svms.next
  nodup : (id :: ids).Nodup
  preserved : Preserved r ((id :: ids).map a.svms.heap)

variable {a0 a b : AddState} {id : Nat} {ids : List Nat} {al : Alloc}

theorem CutAt.split (h : CutAt r a0 a id ids) {prange' piece : Range}
    (hsplit : Preserved (a.svms.heap id) [prange', piece])
    (hsvms : b.svms = (a.svms.write id prange').push piece)
    (hinsert : b.insert = a.svms.next :: a.insert) :
    CutAt r a0 b id (a.svms.next :: ids) := by
  have hid : id < a.svms.next := h.lt id mem_cons_self
  obtain ⟨hnotin, hids⟩ := nodup_cons.mp h.nodup
  have hlt : ∀ x ∈ ids, x < a.svms.next := fun x hx => h.lt x (mem_cons_of_mem id hx)
  have hheapId : b.svms.heap id = prange' := by
    rw [hsvms]
    simp only [Svms.push, Svms.write]
    rw [update_of_ne hid.ne, update_self]
  have hheapNext : b.svms.heap a.svms.next = piece := by
    rw [hsvms]
    exact update_self ..
  have hheap : ∀ x ∈ ids, b.svms.heap x = a.svms.heap x := by
    intro x hx
    have hne : x ≠ id := fun heq => hnotin (heq ▸ hx)
    rw [hsvms]
    simp only [Svms.push, Svms.write]
    rw [update_of_ne (hlt x hx).ne, update_of_ne hne]
  have hnext : b.svms.next = a.svms.next + 1 := by rw [hsvms]; rfl
  constructor
  · rw [hinsert, h.insert]
    rfl
  · intro x hx
    rw [hnext]
    rcases mem_cons.mp hx with rfl | hx
    · omega
    · rcases mem_cons.mp hx with rfl | hx
      · omega
      · exact (hlt x hx).trans (Nat.lt_succ_self _)
  · refine nodup_cons.mpr ⟨fun hmem => ?_, nodup_cons.mpr ⟨fun hmem => ?_, hids⟩⟩
    · rcases mem_cons.mp hmem with heq | hmem
      · exact hid.ne heq
      · exact hnotin hmem
    · exact (hlt _ hmem).ne rfl
  · have hmap : (id :: a.svms.next :: ids).map b.svms.heap =
        [prange', piece] ++ ids.map a.svms.heap := by
      simp only [map_cons, hheapId, hheapNext, map_congr_left hheap, cons_append,
        nil_append]
    rw [hmap]
    exact Preserved.cut h.preserved hsplit

theorem svmRangeSplitHead_cutAt {newStart : Nat} (h : CutAt r a0 a id ids)
    (hres : svmRangeSplitHead p al id newStart a = (b, none)) : ∃ ids', CutAt r a0 b id ids' := by
  unfold svmRangeSplitHead at hres
  dsimp only at hres
  split at hres
  · cases hres
  · next hsplit =>
    obtain rfl := congrArg Prod.fst hres
    exact ⟨_, h.split (svmRangeSplit_preserved hsplit) rfl rfl⟩

theorem svmRangeSplitTail_cutAt {newLast : Nat} (h : CutAt r a0 a id ids)
    (hres : svmRangeSplitTail p al id newLast a = (b, none)) : ∃ ids', CutAt r a0 b id ids' := by
  unfold svmRangeSplitTail at hres
  dsimp only at hres
  split at hres
  · cases hres
  · next hsplit =>
    obtain rfl := congrArg Prod.fst hres
    exact ⟨_, h.split (svmRangeSplit_preserved hsplit) rfl rfl⟩

theorem replaceNode_cutAt {node : Nat} (hr : a.svms.heap node = r) (hsized : r.Sized)
    (hres : replaceNode p al start last node a = (b, none)) :
    ∃ ids, CutAt r a b a.svms.next ids := by
  unfold replaceNode at hres
  rw [hr] at hres
  dsimp only at hres
  split at hres
  · cases hres
  · generalize ha1 : ({ a with
      svms := a.svms.push (svmRangeClone p r)
      remove := node :: a.remove
      insert := a.svms.next :: a.insert
      update := a.svms.next :: a.update } : AddState) = a1 at hres
    have hclone : CutAt r a a1 a.svms.next [] := by
      subst ha1
      refine ⟨rfl, fun x hx => ?_, nodup_singleton _, ?_⟩
      · rw [mem_singleton.mp hx]
        exact Nat.lt_succ_self _
      · have hheap : (a.svms.push (svmRangeClone p r)).heap a.svms.next = svmRangeClone p r :=
          update_self ..
        simp only [map_cons, map_nil, hheap]
        exact svmRangeClone_preserved hsized
    generalize hr2 : (if r.itStart < start then svmRangeSplitHead p al a.svms.next start a1
      else (a1, none)) = r2 at hres
    obtain ⟨b2, e2⟩ := r2
    cases e2 with
    | some e => cases hres
    | none =>
      have hhead : ∃ ids, CutAt r a b2 a.svms.next ids := by
        split at hr2
        · exact svmRangeSplitHead_cutAt hclone hr2
        · cases hr2
          exact ⟨[], hclone⟩
      obtain ⟨ids, hhead⟩ := hhead
      dsimp only at hres
      split at hres
      · exact svmRangeSplitTail_cutAt hhead hres
      · cases hres
        exact ⟨ids, hhead⟩

/-- A split keeps what each page means, for every range that the driver makes: the two
pieces of `svm_range_split`, and the pieces of the clone that `svm_range_add` inserts. -/
theorem split_preserves (p : Process) (r : Range) (hr : Made p r) :
    (∀ newOk dmaOk start last old new,
      svmRangeSplit p newOk dmaOk r start last = .ok (old, new) → Preserved r [old, new]) ∧
    ∀ al start last node a b, a.svms.heap node = r →
      replaceNode p al start last node a = (b, none) →
        ∃ ids, b.insert = ids ++ a.insert ∧ ids.Nodup ∧ Preserved r (ids.map b.svms.heap) := by
  refine ⟨fun _ _ _ _ _ _ h => svmRangeSplit_preserved h, ?_⟩
  intro al start last node a b hnode hres
  obtain ⟨ids, h⟩ := replaceNode_cutAt hnode hr.sized hres
  have hperm : (ids ++ [a.svms.next]).Perm (a.svms.next :: ids) := perm_append_singleton _ _
  refine ⟨ids ++ [a.svms.next], ?_, hperm.nodup_iff.mpr h.nodup, ?_⟩
  · rw [h.insert, append_assoc]
    rfl
  · exact h.preserved.perm (hperm.map _).symm

def exOneGpu : Process :=
  { xnackEnabled := false
    gpuIds := [1]
    bitmapSupported := {0}
    maxSvmRangePages := 512
    maxSvmRangePages_pos := maxSvmRangePages_512 }

def exInVram : Range :=
  { svmRangeNew exOneGpu 4 15 with
    actualLoc := 1
    svmBo := some 7
    ttmRes := some 7
    dmaAddr := [some (replicate 12 1)] }

theorem exInVram_made : Made exOneGpu exInVram :=
  .update (.new (show 4 ≤ 15 by decide)) rfl rfl rfl

/-- The range is cut before page 8. -/
theorem split_preserves_exInVram : ∃ old new,
    svmRangeSplit exOneGpu true true exInVram 8 15 = .ok (old, new) ∧ new.last = 7 ∧
      Preserved exInVram [old, new] :=
  ⟨_, _, rfl, rfl, (split_preserves exOneGpu exInVram exInVram_made).1 true true 8 15 _ _ rfl⟩

/-- Pages 4 to 15, which were moved from VRAM to system memory while a neighbour kept the
BO. -/
def exMovedBack : Range :=
  { svmRangeNew exOneGpu 4 15 with svmBo := some 7 }

/-- The new piece of that range does not point to the BO. -/
theorem split_drops_bo :
    ¬∀ (p : Process) (r : Range), Made p r → ∀ newOk dmaOk start last old new,
      svmRangeSplit p newOk dmaOk r start last = .ok (old, new) →
        ∀ q ∈ [old, new], ∀ page, q.Has page →
          q.svmBo = r.svmBo ∧ q.offset + (page - q.start) = r.offset + (page - r.start) := by
  intro h
  have hmade : Made exOneGpu exMovedBack :=
    .update (.new (show 4 ≤ 15 by decide)) rfl rfl rfl
  have hnew := h exOneGpu exMovedBack hmade true true 8 15 _ _ rfl _
    (mem_cons_of_mem _ mem_cons_self) 4 ⟨by decide, by decide⟩
  cases hnew.1

end Split

end Amdkfd.Svm
